import ChipEight.Session.EventQueue
import ChipEight.Session.Window

/-!
# Hosts

A session asks its host for a window, for an audio device and for the events of
every turn, and hands it the pictures.  What the host makes of this is no matter
of the session: it may lack drivers, refuse the window and fail to present a
picture.
-/

namespace ChipEight

/-- What a host does for a session. -/
structure Host where
  /-- The video driver that the host lacks, by name. -/
  missingVideo : Option String := none
  missingAudio : Option String := none
  /-- Why a window cannot be asked for. -/
  invalid? : Window → Option WindowError := fun _ => none
  /-- Why a window that was asked for is not opened. -/
  refusal? : Window → Option String := fun _ => none
  /-- Why a picture is not presented, told by how many were presented before it. -/
  renderFailure? : Nat → Option String := fun _ => none
  events : EventSource := .prompt

namespace Host

/-- Present pictures in order until one of them fails.  Returns those that were
presented, and why no more were. -/
def present (host : Host) (presented : Nat) : List Frame → List Frame × Option WindowError
  | [] => ([], none)
  | picture :: pictures =>
    match host.renderFailure? presented with
    | some cause => ([], some (.unpresented cause))
    | none =>
      let (shown, error) := host.present (presented + 1) pictures
      (picture :: shown, error)

end Host

namespace Window

/-- The largest width and height that a polling host can be asked for, as a signed
word. -/
def largestRequest : UInt32 := 0x7FFFFFFF

def invalid? (window : Window) : Option WindowError :=
  match nulPosition? window.title.toList with
  | some position => some (.nulInTitle position)
  | none =>
    if largestRequest < window.width then
      some (.tooWide window.width)
    else if largestRequest < window.height then
      some (.tooHigh window.height)
    else
      none

/-- The largest width and height of the windows that a polling host opens. -/
def largestSide : UInt32 := 0x4000

def oversize? (window : Window) : Option String :=
  if window.width ≤ largestSide ∧ window.height ≤ largestSide then
    none
  else
    some "Window is too large."

/-- The window that the host is asked for, if it can be. -/
def request (host : Host) (options : Session.Options) : Except WindowError Window :=
  let window := ofOptions options
  match host.missingVideo, host.invalid? window with
  | some driver, _ => .error (.noVideo driver)
  | none, some error => .error error
  | none, none => .ok window

/-- Ask the host for the window that the options describe. -/
def openOn (host : Host) (options : Session.Options) : Except WindowError Window :=
  match request host options with
  | .error error => .error error
  | .ok window =>
    match host.refusal? window with
    | some cause => .error (.refused cause)
    | none => .ok window

end Window

/-- A host that is polled for events and limits the title and the size of windows. -/
def Host.polling : Host where
  invalid? := Window.invalid?
  refusal? := Window.oversize?
  events := .polled

end ChipEight
