import ChipEight.Machine.Step
import ChipEight.Session.Host
import ChipEight.Sound.Speaker

/-!
# Turns of a session

A session goes on in turns, one per picture of the screen.  A turn receives its
events, then executes or rewinds some instructions, tells the speaker whether
the tone sounds, and presents the picture if it changed.  A fault halts the
session until an instruction is rewound, and a picture that cannot be presented
breaks it off.
-/

namespace ChipEight

structure Session where
  machine : Machine
  speaker : Speaker
  /-- Whether the next turn starts without waiting. -/
  fastForward : Bool := false
  /-- Whether instructions are rewound instead of executed. -/
  rewinding : Bool := false
  /-- Whether a fault has stopped the execution. -/
  halted : Bool := false

/-- What a turn shows, what it tells the audio device and what it reports, each
in order. -/
structure Turn where
  shown : List Frame := []
  tone : List ToneSignal := []
  log : List Notice := []

/-- A turn with the session after it, and whether the session goes on. -/
structure TurnOutcome where
  turn : Turn
  session : Session
  continues : Bool

namespace Session

def turnsPerSecond : Nat := 60

/-- How many nanoseconds a turn lasts. -/
def turnTime : Nat := 1000000000 / turnsPerSecond

/-- How many nanoseconds a session waits behind a turn that took some. -/
def delay (session : Session) (elapsed : Nat) : Nat :=
  if session.fastForward then 0 else turnTime - elapsed

theorem elapsed_add_delay {session : Session} (unhurried : session.fastForward = false)
    (elapsed : Nat) : elapsed + session.delay elapsed = max elapsed turnTime := by
  rw [delay, unhurried, if_neg Bool.false_ne_true]
  omega

/-- Take one event.  Nothing is returned if the event ends the session. -/
def receive? (session : Session) : Event → Option Session
  | .keyDown key =>
    match key.bind Keymap.input? with
    | some (.key key) => some { session with machine := session.machine.holdKey key true }
    | some .quit => none
    | some .rewind => some { session with rewinding := true }
    | some .fastForward => some { session with fastForward := true }
    | none => some session
  | .keyUp key =>
    match key.bind Keymap.input? with
    | some (.key key) => some { session with machine := session.machine.holdKey key false }
    | some .quit => some session
    | some .rewind => some { session with rewinding := false }
    | some .fastForward => some { session with fastForward := false }
    | none => some session
  | .closed => none
  | .other => some session

/-- Take events in order until one ends the session.  Returns whether none
did. -/
def receiveAll (session : Session) : List Event → Session × Bool
  | [] => (session, true)
  | event :: events =>
    match session.receive? event with
    | some session => session.receiveAll events
    | none => (session, false)

/-- Execute or rewind the instructions of one turn.  Timers count down in a turn
that executes, and also in the turn that faults. -/
def update (session : Session) (cycles : Nat) : Session × List Notice :=
  if session.rewinding then
    let (rewound, machine) := session.machine.rewindCycles cycles
    ({ session with machine, halted := session.halted && rewound == 0 }, [])
  else if session.halted then
    (session, [])
  else
    let run := session.machine.runCycles cycles
    ({ session with machine := run.machine.tick, halted := run.value.fault.isSome },
      run.log ++ run.value.fault.toList.map .halted)

def toneActive (session : Session) : Bool :=
  !session.halted && !session.rewinding && session.machine.state.soundActive

def setTone (session : Session) (active : Bool) : Session × List ToneSignal :=
  let (speaker, signals) := session.speaker.setActive active
  ({ session with speaker }, signals)

def present (session : Session) : Session × List Frame :=
  let (picture, machine) := session.machine.takeFrame
  ({ session with machine }, picture.toList)

/-- Play one turn.  A turn whose events end the session only stops the tone. -/
def play (session : Session) (cycles : Nat) (events : List Event) : TurnOutcome :=
  match session.receiveAll events with
  | (session, false) =>
    let (session, tone) := session.setTone false
    ⟨{ tone }, session, false⟩
  | (session, true) =>
    let (session, log) := session.update cycles
    let (session, tone) := session.setTone session.toneActive
    let (session, shown) := session.present
    ⟨{ shown, tone, log }, session, true⟩

/-- Play turns with the given events until one of them ends the session or has a
picture that the host fails to present.  Such a turn breaks off at the picture,
and the tone stays as it is. -/
def playOn (host : Host) (session : Session) (cycles presented : Nat) :
    List (List Event) → List Turn × Option WindowError
  | [] => ([], none)
  | events :: script =>
    let outcome := session.play cycles events
    match host.present presented outcome.turn.shown with
    | (shown, some error) => ([{ outcome.turn with shown }], some error)
    | (shown, none) =>
      if outcome.continues then
        let (turns, error) :=
          outcome.session.playOn host cycles (presented + shown.length) script
        (outcome.turn :: turns, error)
      else
        ([outcome.turn], none)

end Session

end ChipEight
