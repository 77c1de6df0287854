import ChipEight.Session.Turn

/-!
# Terminal

A session can be played on a terminal.  Pictures are shown as lines of text, and
a line of input holds the events that arrive during one turn: `+q` presses the
key `q`, `-q` releases it, and `quit` closes the window.
-/

namespace ChipEight

namespace Terminal

/-- A terminal shows every picture, and a turn takes all events of its line. -/
def host : Host := {}

/-- A row of the picture, lit pixels as `#`. -/
def rowText (row : Vector UInt8 Frame.width) : String :=
  String.ofList (row.toList.map fun pixel => if pixel = 0 then ' ' else '#')

def pictureText (frame : Frame) : String :=
  "\n".intercalate (frame.rows.toList.map rowText)

/-- The key with the given name: a character, or one of the control keys. -/
def key? : List Char → Option HostKey
  | [character] => some (.ofChar character)
  | name =>
    match String.ofList name with
    | "escape" => some (.ofChar '\x1b')
    | "backspace" => some (.ofChar '\x08')
    | "space" => some (.ofChar ' ')
    | _ => none

def event (word : String) : Event :=
  match word.toList with
  | '+' :: name => .keyDown (key? name)
  | '-' :: name => .keyUp (key? name)
  | _ => if word = "quit" then .closed else .other

def events (line : String) : List Event :=
  let blank (character : Char) : Bool := character = ' ' || character = '\t' || character = '\n'
  (line.toList.splitBy fun before after => blank before == blank after).filterMap fun word =>
    if word.all blank then none else some (event (String.ofList word))

end Terminal

end ChipEight
