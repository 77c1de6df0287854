import ChipEight.Session.Turn
import ChipEight.Sound.SquareWave

/-!
# Transcripts

A transcript is everything that a session asks of its host, from opening the
window to the last turn.
-/

namespace ChipEight

/-- An audio device as it is asked from the host. -/
structure AudioDevice where
  frequency : Nat
  channels : Nat
  deriving DecidableEq, Repr

def AudioDevice.tone : AudioDevice where
  frequency := Sound.sampleRate
  channels := 1

/-- What a session asks of its host. -/
structure Transcript where
  /-- The window that the host was asked for, which it may have refused. -/
  window : Option Window
  audio : Option AudioDevice
  error : Option WindowError
  /-- The time before the first turn, and then the turns. -/
  turns : List Turn

namespace Transcript

def sounded (transcript : Transcript) : Bool :=
  transcript.turns.any fun turn => turn.tone.contains .resume

/-- The first samples of the tone, if it was ever started. -/
def firstSamples? (transcript : Transcript) (count : Nat) : Option (List Float32) :=
  if transcript.sounded then some (SquareWave.tone.fill count).1 else none

end Transcript

namespace Speaker

/-- The speaker that the options ask for, and what is reported about it. -/
def openOn (host : Host) (options : Session.Options) : Speaker × List Notice :=
  if options.muted then
    (silent, [])
  else
    match host.missingAudio with
    | some driver => (silent, [.soundUnavailable driver])
    | none => (tone false, [])

def device? : Speaker → Option AudioDevice
  | silent => none
  | tone _ => some .tone

end Speaker

/-- A session that is about to play its first turn. -/
structure Opening where
  window : Window
  session : Session
  queue : EventQueue
  /-- What opening the session shows and reports. -/
  turn : Turn

namespace Session

/-- Open the window, which is blank at first, and the speaker of a session. -/
def launch (host : Host) (options : Session.Options) (machine : Machine) :
    Except WindowError Opening :=
  match Window.openOn host options with
  | .error error => .error error
  | .ok window =>
    let (speaker, notices) := Speaker.openOn host options
    .ok {
      window
      session := { machine, speaker }
      queue := host.events.opening speaker.device?.isSome
      turn := {
        shown := [.blank]
        log := .windowOpened window.width window.height :: notices } }

/-- Run a session with a machine.  The script holds the events that arrive
during each turn, and the window is closed when it is over. -/
def run (host : Host) (options : Session.Options) (machine : Machine)
    (script : List (List Event)) : Transcript :=
  match launch host options machine with
  | .error error => ⟨(Window.request host options).toOption, none, some error, [{}]⟩
  | .ok opening =>
    let events := host.events.deliver opening.queue (script ++ [[.closed]])
    let (turns, error) := opening.session.playOn host options.cyclesPerTurn 0 events
    ⟨some opening.window, opening.session.speaker.device?, error, opening.turn :: turns⟩

end Session

end ChipEight
