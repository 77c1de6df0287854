import ChipEight.Proofs.Session.Conversation
import ChipEight.Session.Transcript

/-!
# The turns of a session

A turn that was played is known by the session before it and by its events.
The turns of a session follow one another until one of them ends it, and their
calls together are one run of the machine.
-/

namespace ChipEight

/-- A turn with the session that played it. -/
structure PlayedTurn where
  before : Session
  cycles : Nat
  events : List Event

namespace PlayedTurn

def outcome (turn : PlayedTurn) : TurnOutcome :=
  turn.before.play turn.cycles turn.events

def after (turn : PlayedTurn) : Session :=
  turn.outcome.session

/-- The session after the events of the turn. -/
def received (turn : PlayedTurn) : Session :=
  (turn.before.receiveAll turn.events).1

def calls (turn : PlayedTurn) : List Call :=
  turn.before.calls turn.cycles turn.events

def exchanges (turn : PlayedTurn) : List Exchange :=
  turn.before.machine.exchanges turn.calls

/-- Whether an earlier state was restored during the turn. -/
def restores (turn : PlayedTurn) : Bool :=
  turn.exchanges.any Exchange.restores

/-- The calls for the keys that the events of the turn are about. -/
def keyCalls (turn : PlayedTurn) : List Call :=
  (Session.heard turn.events).filterMap Event.call?

/-- The calls that the turn makes of its own accord. -/
def ownCalls (turn : PlayedTurn) : List Call :=
  if turn.outcome.continues then turn.received.updateCalls turn.cycles ++ [.takeFrame] else []

theorem machine_after (turn : PlayedTurn) :
    turn.after.machine = turn.before.machine.performAll turn.calls :=
  (turn.before.play_eq_conversation turn.cycles turn.events).1

theorem halted_after (turn : PlayedTurn) {halting? : Option Fault}
    (known : turn.before.halted = halting?.isSome) :
    turn.after.halted = (turn.exchanges.foldl Exchange.noteHalt halting?).isSome :=
  (turn.before.play_eq_conversation turn.cycles turn.events).2.1 halting? known

theorem log_eq (turn : PlayedTurn) :
    turn.outcome.turn.log = turn.exchanges.flatMap Exchange.notices :=
  (turn.before.play_eq_conversation turn.cycles turn.events).2.2.1

theorem shown_eq (turn : PlayedTurn) :
    turn.outcome.turn.shown = turn.exchanges.filterMap Exchange.picture? :=
  (turn.before.play_eq_conversation turn.cycles turn.events).2.2.2

theorem continues_eq (turn : PlayedTurn) :
    turn.outcome.continues = (turn.before.receiveAll turn.events).2 := by
  cases goesOn : (turn.before.receiveAll turn.events).2 with
  | false => exact (Session.play_of_ended turn.cycles goesOn).2.2.2.2
  | true => exact (Session.play_of_goesOn turn.cycles goesOn).2.2.2.2

theorem machine_received (turn : PlayedTurn) :
    turn.received.machine = turn.before.machine.performAll turn.keyCalls :=
  (turn.before.receiveAll_eq turn.events).1

theorem halted_received (turn : PlayedTurn) : turn.received.halted = turn.before.halted :=
  (turn.before.receiveAll_eq turn.events).2.1

theorem any_ends_eq (turn : PlayedTurn) :
    turn.events.any Event.ends = !turn.outcome.continues := by
  rw [continues_eq, (turn.before.receiveAll_eq turn.events).2.2, Bool.not_not]

theorem heard_eq {turn : PlayedTurn} (continues : turn.outcome.continues = true) :
    Session.heard turn.events = turn.events := by
  apply Session.heard_eq_self
  rw [any_ends_eq, continues]
  rfl

theorem calls_eq (turn : PlayedTurn) : turn.calls = turn.keyCalls ++ turn.ownCalls := by
  cases goesOn : (turn.before.receiveAll turn.events).2 with
  | false =>
      simp [ownCalls, continues_eq, goesOn, calls, keyCalls, Session.calls_of_ended _ goesOn]
  | true =>
      simp [ownCalls, continues_eq, goesOn, calls, keyCalls, received,
        Session.calls_of_goesOn _ goesOn]

theorem exchanges_eq (turn : PlayedTurn) :
    turn.exchanges = turn.before.machine.exchanges turn.keyCalls ++
      turn.received.machine.exchanges turn.ownCalls := by
  rw [exchanges, calls_eq, Machine.exchanges_append, machine_received]

theorem machine_after_own (turn : PlayedTurn) :
    turn.after.machine = turn.received.machine.performAll turn.ownCalls := by
  rw [machine_after, calls_eq, Machine.performAll_append, machine_received]

/-- What a turn does of its own accord. -/
theorem mem_ownCalls {turn : PlayedTurn} {call : Call} (member : call ∈ turn.ownCalls) :
    turn.outcome.continues = true ∧
      (call = .takeFrame ∨ turn.received.rewinding = true ∧ call = .rewind ∨
        turn.received.rewinding = false ∧ turn.received.halted = false ∧
          (call = .step ∨ call = .tick)) := by
  unfold ownCalls at member
  split at member
  · rename_i continues
    refine ⟨continues, ?_⟩
    rcases List.mem_append.mp member with updating | taking
    · exact Or.inr (Session.mem_updateCalls updating)
    · exact Or.inl (List.mem_singleton.mp taking)
  · cases member

/-- A turn that goes on, neither rewinding nor halted, executes and ticks. -/
theorem ownCalls_of_running {turn : PlayedTurn} (continues : turn.outcome.continues = true)
    (onward : turn.received.rewinding = false) (running : turn.received.halted = false) :
    turn.ownCalls = turn.received.machine.attempts .step turn.cycles ++ [.tick, .takeFrame] := by
  simp [ownCalls, continues, Session.updateCalls, onward, running]

theorem key_of_mem_keyCalls {turn : PlayedTurn} {call : Call} (member : call ∈ turn.keyCalls) :
    ∃ byte down, call = .setKey byte down := by
  obtain ⟨event, -, made⟩ := List.mem_filterMap.mp member
  obtain ⟨change, -, rfl⟩ := Option.map_eq_some_iff.mp made
  exact ⟨_, _, rfl⟩

/-- A turn that goes on, neither rewinding nor halted, begins with a step after
its events. -/
theorem step_mem_exchanges {turn : PlayedTurn} (continues : turn.outcome.continues = true)
    (onward : turn.received.rewinding = false) (running : turn.received.halted = false)
    (cycles : turn.cycles ≠ 0) :
    ⟨turn.received.machine, .step⟩ ∈ turn.exchanges := by
  obtain ⟨fewer, cyclesEq⟩ := Nat.exists_eq_succ_of_ne_zero cycles
  rw [turn.exchanges_eq]
  refine List.mem_append_right _ ?_
  rw [ownCalls_of_running continues onward running, cyclesEq]
  simp [Machine.attempts, Machine.exchanges]

theorem silent_of_mem_keyCalls {turn : PlayedTurn} {exchange : Exchange}
    (member : exchange ∈ turn.before.machine.exchanges turn.keyCalls) : exchange.Silent :=
  Session.silent_of_key member

end PlayedTurn

theorem Machine.exists_state_load (config : Config) (random : RandomSource)
    (program : Array UInt8) :
    ∃ content, ((new config random).load program).machine.state = .boot content ∧
      ((new config random).load program).machine.history.states = [] := by
  unfold load
  split
  · exact ⟨#[], rfl, rfl⟩
  · exact ⟨program, rfl, rfl⟩

namespace Session

/-- The turns that are played with the given events, up to the first that ends
the session. -/
def turns (session : Session) (cycles : Nat) : List (List Event) → List PlayedTurn
  | [] => []
  | events :: script =>
    let turn : PlayedTurn := ⟨session, cycles, events⟩
    turn :: if turn.outcome.continues then turn.after.turns cycles script else []

/-- A property of a session and of the turns played so far that turns preserve
holds before every turn. -/
theorem invariant_turns {session : Session} {cycles : Nat} {script : List (List Event)}
    (Holds : List PlayedTurn → Session → Prop) (initially : Holds [] session)
    (preserved : ∀ {earlier : List PlayedTurn} {turn : PlayedTurn}, turn.cycles = cycles →
      turn.outcome.continues = true → Holds earlier turn.before →
        Holds (earlier ++ [turn]) turn.after)
    {earlier later : List PlayedTurn} {turn : PlayedTurn}
    (played : session.turns cycles script = earlier ++ turn :: later) :
    Holds earlier turn.before := by
  suffices general : ∀ done : List PlayedTurn, Holds done session →
      Holds (done ++ earlier) turn.before by
    exact general [] initially
  clear initially
  intro done holds
  induction script generalizing session earlier done with
  | nil => cases earlier <;> cases played
  | cons events script ih =>
      rw [turns] at played
      cases earlier with
      | nil =>
          rw [List.nil_append] at played
          obtain ⟨rfl, -⟩ := List.cons.inj played
          rw [List.append_nil]
          exact holds
      | cons first earlier =>
          obtain ⟨rfl, rest⟩ := List.cons.inj played
          split at rest
          · rename_i continues
            rw [List.append_cons]
            exact ih rest (done ++ [_]) (preserved rfl continues holds)
          · cases earlier <;> cases rest

theorem turns_of_continues (turn : PlayedTurn) {script : List (List Event)}
    (continues : turn.outcome.continues = true) :
    turn.before.turns turn.cycles (turn.events :: script) =
      turn :: turn.after.turns turn.cycles script := by
  simp only [turns]
  exact congrArg _ (if_pos continues)

/-- From any of its turns on, a session is played as a session that starts
there. -/
theorem exists_script_of_turns {session : Session} {cycles : Nat} {script : List (List Event)}
    {earlier later : List PlayedTurn} {turn : PlayedTurn}
    (played : session.turns cycles script = earlier ++ turn :: later) :
    ∃ rest, turn.before.turns cycles rest = turn :: later := by
  induction script generalizing session earlier with
  | nil => cases earlier <;> cases played
  | cons events script ih =>
      cases earlier with
      | nil =>
          have first := played
          rw [turns, List.nil_append] at first
          obtain ⟨rfl, -⟩ := List.cons.inj first
          exact ⟨events :: script, played⟩
      | cons first earlier =>
          rw [turns] at played
          obtain ⟨-, rest⟩ := List.cons.inj played
          split at rest
          · exact ih rest
          · cases earlier <;> cases rest

theorem turns_singleton (session : Session) (cycles : Nat) (events : List Event) :
    session.turns cycles [events] = [⟨session, cycles, events⟩] := by
  simp only [turns, ite_self]

theorem exists_last_turn (session : Session) (cycles : Nat) {script : List (List Event)}
    (ends : ∃ events ∈ script, events.any Event.ends = true) :
    ∃ earlier turn, session.turns cycles script = earlier ++ [turn] ∧
      turn.outcome.continues = false := by
  induction script generalizing session with
  | nil => simp at ends
  | cons events script ih =>
      let turn : PlayedTurn := ⟨session, cycles, events⟩
      cases goesOn : turn.outcome.continues with
      | false =>
          refine ⟨[], turn, ?_, goesOn⟩
          simp only [turns]
          rw [if_neg (Bool.eq_false_iff.mp goesOn)]
          rfl
      | true =>
          have unended : events.any Event.ends = false := by
            rw [turn.any_ends_eq, goesOn]
            rfl
          obtain ⟨events', member, ending⟩ := ends
          have later : events' ∈ script := by
            rcases List.mem_cons.mp member with rfl | later
            · cases unended.symm.trans ending
            · exact later
          obtain ⟨earlier, last, playedEq, ended⟩ := ih turn.after ⟨events', later, ending⟩
          refine ⟨turn :: earlier, last, ?_, ended⟩
          rw [turns_of_continues turn goesOn, playedEq]
          rfl

/-- A session of a freshly loaded program starts with a machine that has not
run, not halted, and with a blank picture in the window. -/
theorem start_of_launch {config : Config} {random : RandomSource} {program : Array UInt8}
    {host : Host} {options : Options} {opening : Opening}
    (opened : launch host options ((Machine.new config random).load program).machine =
      .ok opening) :
    (∃ content, opening.session.machine.state = .boot content) ∧
      opening.session.machine.history.states = [] ∧ opening.session.halted = false ∧
      opening.turn.shown = [.blank] := by
  obtain ⟨content, stateEq, historyEq⟩ := Machine.exists_state_load config random program
  unfold launch at opened
  split at opened
  · cases opened
  · cases opened
    exact ⟨⟨content, stateEq⟩, historyEq, rfl, rfl⟩

/-- The options of a session without sound. -/
def Options.silent (cyclesPerTurn : Nat) : Options where
  title := ""
  cyclesPerTurn := cyclesPerTurn
  scale := 1
  muted := true

/-- A session without sound that is about to play its first turn. -/
def silentOpening (machine : Machine) : Opening where
  window := ⟨"", 64, 32⟩
  session := { machine, speaker := .silent }
  queue := ⟨[]⟩
  turn := { shown := [.blank], log := [.windowOpened 64 32] }

theorem launch_silent (machine : Machine) (cyclesPerTurn : Nat) :
    launch {} (.silent cyclesPerTurn) machine = .ok (silentOpening machine) :=
  rfl

/-- The first turn of a session without sound. -/
def firstTurn (machine : Machine) (cycles : Nat) : PlayedTurn :=
  ⟨(silentOpening machine).session, cycles, []⟩

theorem turns_firstTurn (machine : Machine) (cycles : Nat) :
    (silentOpening machine).session.turns cycles [[]] = [] ++ firstTurn machine cycles :: [] :=
  turns_singleton _ cycles []

theorem step_mem_firstTurn (machine : Machine) {cycles : Nat} (some : cycles ≠ 0) :
    ⟨machine, .step⟩ ∈ (firstTurn machine cycles).exchanges :=
  (firstTurn machine cycles).step_mem_exchanges ((firstTurn machine cycles).continues_eq.trans rfl)
    rfl rfl some

end Session

end ChipEight
