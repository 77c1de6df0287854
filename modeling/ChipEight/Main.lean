import ChipEight.CommandLine
import ChipEight.Machine.Load
import ChipEight.Session.Transcript
import ChipEight.Terminal

/-!
# The program

Runs a program of the machine in a session on the terminal.  This file reads
and prints, and leaves every decision to the library.
-/

namespace ChipEight

namespace Program

/-- Whether notices of a level are printed.  Only debug notices are left
out. -/
def printsLevel : Level → Bool
  | .debug => false
  | .trace | .warn | .error => true

def printTurn (turn : Turn) : IO Unit := do
  for notice in turn.log do
    if printsLevel notice.level then
      IO.eprintln s!"[{notice.level.name}] {notice.message}"
  for frame in turn.shown do
    IO.println (Terminal.pictureText frame)

/-- Play turns until the session ends, one for each line of input, and no faster
than turns are played in a window. -/
partial def playLines (input : IO.FS.Stream) (cycles : Nat) (session : Session)
    (queue : EventQueue) : IO Unit := do
  let start ← IO.monoNanosNow
  let line ← input.getLine
  let arriving := if line.isEmpty then [.closed] else Terminal.events line
  let (taken, queue) := Terminal.host.events.take queue arriving
  let outcome := session.play cycles taken
  printTurn outcome.turn
  if outcome.continues then
    let elapsed := (← IO.monoNanosNow) - start
    IO.sleep (.ofNat (outcome.session.delay elapsed / 1000000))
    playLines input cycles outcome.session queue

/-- Read an open file as the source of a program. -/
def readSource (file : IO.FS.Handle) : IO ProgramSource := do
  try
    let bytes ← file.readBinToEnd
    return [.delivered bytes.toList]
  catch error =>
    return [.failed error.toString]

def runFile (file : IO.FS.Handle) (path : String) (settings : CommandLine.Settings) :
    IO UInt32 := do
  let source ← readSource file
  let seed ← IO.rand 0 (UInt32.size - 1)
  let fresh := Machine.new settings.config (.ofSeed (UInt32.ofNat seed))
  let loading := fresh.loadFrom source
  match loading.value with
  | .error error =>
    IO.eprintln s!"Error: unable to load {path}: {error.message}"
    return 1
  | .ok size =>
    IO.eprintln s!"[INFO] loaded {size} bytes from {path}"
    match Session.launch Terminal.host (settings.sessionOptions path) loading.machine with
    | .error error =>
      IO.eprintln s!"Error: {error.message}"
      return 1
    | .ok opening =>
      printTurn opening.turn
      playLines (← IO.getStdin) settings.cyclesPerTurn opening.session opening.queue
      return 0

def runPath (path : String) (settings : CommandLine.Settings) : IO UInt32 := do
  let file? ← try some <$> IO.FS.Handle.mk path .read catch _ => pure none
  match file? with
  | some file => runFile file path settings
  | none =>
    IO.eprintln s!"Error: unable to open {path}"
    return 1

end Program

end ChipEight

def main (arguments : List String) : IO UInt32 := do
  if arguments.contains "-h" || arguments.contains "--help" then
    IO.println ChipEight.CommandLine.usage
    return 0
  match ChipEight.CommandLine.parse arguments with
  | .error error =>
    IO.eprintln error.message
    IO.eprintln ChipEight.CommandLine.usage
    return 2
  | .ok (path, settings) => ChipEight.Program.runPath path settings
