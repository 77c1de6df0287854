import ChipEight.Config
import ChipEight.Session.Window

/-!
# Command line

The arguments of the program: the path of a program to run, and options for the
machine and its session.
-/

namespace ChipEight

namespace CommandLine

/-- What the arguments ask for. -/
structure Settings where
  path : Option String := none
  cyclesPerTurn : Nat := Session.Options.defaultCyclesPerTurn
  scale : UInt32 := 10
  trace : Bool := false
  muted : Bool := false
  indexIncrement : Bool := true
  deriving DecidableEq, Repr

inductive ArgumentError where
  | missingPath
  | missingValue (option : String)
  | invalidValue (option value : String)
  | unexpected (argument : String)
  deriving DecidableEq, Repr

def ArgumentError.message : ArgumentError → String
  | missingPath => "error: the path of a ROM is required"
  | missingValue option => s!"error: a value is required for '{option}'"
  | invalidValue option value => s!"error: invalid value '{value}' for '{option}'"
  | unexpected argument => s!"error: unexpected argument '{argument}' found"

def usage : String :=
  "Usage: chip8 [OPTIONS] <ROM>\n\n" ++
  "Options:\n" ++
  "  -c, --cycles-per-frame <N>  Instructions executed per frame [default: 10]\n" ++
  "  -s, --scale <N>             Size of a pixel in screen pixels [default: 10]\n" ++
  "  -t, --trace                 Log every executed instruction\n" ++
  "  -m, --mute                  Disable sound\n" ++
  "      --no-index-increment    Leave I unchanged after Fx55 and Fx65\n" ++
  "  -h, --help                  Print help"

/-- A number of at most 32 bits, written in decimal. -/
def count? (text : String) : Option UInt32 :=
  let digits := text.toList
  if digits.isEmpty || !digits.all Char.isDigit then
    none
  else
    let number := digits.foldl (fun number digit => 10 * number + (digit.toNat - '0'.toNat)) 0
    if number < UInt32.size then some (.ofNat number) else none

/-- What an option without a value changes. -/
def flag? (option : String) : Option (Settings → Settings) :=
  match option with
  | "-t" | "--trace" => some fun settings => { settings with trace := true }
  | "-m" | "--mute" => some fun settings => { settings with muted := true }
  | "--no-index-increment" => some fun settings => { settings with indexIncrement := false }
  | _ => none

/-- What an option with a value changes. -/
def valued? (option : String) : Option (UInt32 → Settings → Settings) :=
  match option with
  | "-c" | "--cycles-per-frame" =>
    some fun number settings => { settings with cyclesPerTurn := number.toNat }
  | "-s" | "--scale" => some fun number settings => { settings with scale := max number 1 }
  | _ => none

def read (settings : Settings) : List String → Except ArgumentError Settings
  | [] => .ok settings
  | argument :: rest =>
    match flag? argument, valued? argument with
    | some change, _ => read (change settings) rest
    | none, some change =>
      match rest with
      | [] => .error (.missingValue argument)
      | value :: rest =>
        match count? value with
        | some number => read (change number settings) rest
        | none => .error (.invalidValue argument value)
    | none, none =>
      if argument.startsWith "-" || settings.path.isSome then
        .error (.unexpected argument)
      else
        read { settings with path := some argument } rest

/-- Split a long option from a value that is joined to it by an equals sign. -/
def splitValue (argument : String) : List String :=
  if argument.startsWith "--" then
    let (option, value) := argument.toList.span (· != '=')
    match value with
    | _ :: value => [String.ofList option, String.ofList value]
    | [] => [argument]
  else
    [argument]

/-- The settings that the arguments ask for, with the path of the program. -/
def parse (arguments : List String) : Except ArgumentError (String × Settings) :=
  match read {} (arguments.flatMap splitValue) with
  | .error error => .error error
  | .ok settings =>
    match settings.path with
    | some path => .ok (path, settings)
    | none => .error .missingPath

namespace Settings

def config (settings : Settings) : Config where
  dialect := { indexIncrement := settings.indexIncrement }
  trace := settings.trace

def fileName (path : String) : String :=
  String.ofList (path.toList.reverse.takeWhile (· != '/')).reverse

def sessionOptions (settings : Settings) (path : String) : Session.Options where
  title := "Chip-8 - " ++ fileName path
  cyclesPerTurn := settings.cyclesPerTurn
  scale := settings.scale
  muted := settings.muted

end Settings

end CommandLine

end ChipEight
