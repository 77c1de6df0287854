import ChipEight.Proofs.Exchanges
import ChipEight.Session.Turn

/-!
# A turn as a conversation with its machine

A turn reaches its machine through calls only: it sets the keys that its events
are about, then repeats one call until it fails or the cycles are used up, then
ticks and takes the picture.  This file lists the calls of a turn and shows
that the turn is made of their replies: the machine after it, what it shows,
what it reports and whether it is halted.
-/

namespace ChipEight

/-- Whether a call did what it was asked to do. -/
def Reply.succeeded : Reply → Bool
  | .stepped (.error _) => false
  | .rewound restored => restored
  | _ => true

namespace Exchange

/-- The fault that halts a session after an exchange.  A fault halts, and
restoring a state goes on. -/
def noteHalt (halting? : Option Fault) (exchange : Exchange) : Option Fault :=
  match exchange.reply with
  | .stepped (.error fault) => some fault
  | .rewound true => none
  | _ => halting?

/-- What a session reports about an exchange. -/
def notices (exchange : Exchange) : List Notice :=
  exchange.outcome.log ++ exchange.fault?.toList.map .halted

theorem picture?_eq_none {exchange : Exchange} (other : exchange.call ≠ .takeFrame) :
    exchange.picture? = none := by
  obtain ⟨before, call⟩ := exchange
  have performed := before.performs_perform call
  simp only [picture?, reply, outcome] at other ⊢
  generalize (before.perform call).value = answer at performed
  generalize (before.perform call).machine = after at performed
  cases performed <;> first | rfl | exact absurd rfl other

/-- The exchanges in which a session only passes keys on. -/
def Silent (exchange : Exchange) : Prop :=
  exchange.reply = .done ∧ exchange.outcome.log = []

theorem restores_of_silent {exchange : Exchange} (silent : exchange.Silent) :
    exchange.restores = false := by
  simp only [restores, silent.1]

theorem call_ne_step_of_silent {exchange : Exchange} (silent : exchange.Silent) :
    exchange.call ≠ .step := by
  intro steps
  have replied := silent.1
  rw [reply, outcome, steps] at replied
  cases replied

variable {exchanges : List Exchange}

theorem foldl_noteHalt_of_silent (silent : ∀ exchange ∈ exchanges, exchange.Silent)
    (halting? : Option Fault) : exchanges.foldl noteHalt halting? = halting? := by
  induction exchanges with
  | nil => rfl
  | cons exchange rest ih =>
      have same : noteHalt halting? exchange = halting? := by
        simp only [noteHalt, (silent exchange List.mem_cons_self).1]
      rw [List.foldl_cons, same]
      exact ih fun other member => silent other (List.mem_cons_of_mem _ member)

theorem flatMap_notices_of_silent (silent : ∀ exchange ∈ exchanges, exchange.Silent) :
    exchanges.flatMap notices = [] := by
  refine List.flatMap_eq_nil_iff.mpr fun exchange member => ?_
  obtain ⟨replyEq, logEq⟩ := silent exchange member
  simp only [notices, fault?, replyEq, logEq]
  rfl

theorem filterMap_picture?_of_silent (silent : ∀ exchange ∈ exchanges, exchange.Silent) :
    exchanges.filterMap picture? = [] := by
  refine List.filterMap_eq_nil_iff.mpr fun exchange member => ?_
  simp only [picture?, (silent exchange member).1]

end Exchange

namespace Machine

/-- Repeat a call up to the given number of times, until it fails. -/
def attempts (call : Call) : Nat → Machine → List Call
  | 0, _ => []
  | cycles + 1, machine =>
    let outcome := machine.perform call
    call :: if outcome.value.succeeded then outcome.machine.attempts call cycles else []

theorem eq_of_mem_attempts {call other : Call} {cycles : Nat} {machine : Machine}
    (member : other ∈ machine.attempts call cycles) : other = call := by
  induction cycles generalizing machine with
  | zero => cases member
  | succ cycles ih =>
      rcases List.mem_cons.mp member with same | member
      · exact same
      · split at member
        · exact ih member
        · cases member

theorem attempts_of_failed {call : Call} {machine : Machine} (cycles : Nat)
    (failed : (machine.perform call).value.succeeded = false) :
    machine.attempts call (cycles + 1) = [call] := by
  simp [attempts, failed]

theorem attempts_of_succeeded {call : Call} {machine : Machine} (cycles : Nat)
    (succeeded : (machine.perform call).value.succeeded = true) :
    machine.attempts call (cycles + 1) =
      call :: (machine.perform call).machine.attempts call cycles := by
  simp [attempts, succeeded]

theorem runCycles_eq_attempts (cycles : Nat) (machine : Machine) :
    let run := machine.runCycles cycles
    let calls := machine.attempts .step cycles
    run.machine = machine.performAll calls ∧
      run.value.fault = (machine.exchanges calls).foldl Exchange.noteHalt none ∧
      run.log ++ run.value.fault.toList.map .halted =
        (machine.exchanges calls).flatMap Exchange.notices := by
  induction cycles generalizing machine with
  | zero => exact ⟨rfl, rfl, rfl⟩
  | succ cycles ih =>
      rcases stepped : machine.step with ⟨value, after, log⟩
      cases value with
      | error fault =>
          have performed : machine.perform .step = ⟨.stepped (.error fault), after, log⟩ := by
            simp only [perform, stepped]
          have run : machine.runCycles (cycles + 1) = ⟨⟨0, some fault⟩, after, log⟩ := by
            simp only [runCycles, stepped]
          rw [attempts_of_failed cycles (by rw [performed]; rfl), run]
          refine ⟨?_, ?_, ?_⟩
          · simp [performAll, performed]
          · simp [exchanges, Exchange.noteHalt, Exchange.reply, Exchange.outcome, performed]
          · simp [exchanges, Exchange.notices, Exchange.fault?, Exchange.reply, Exchange.outcome,
              performed]
      | ok done =>
          have performed : machine.perform .step = ⟨.stepped (.ok ()), after, log⟩ := by
            simp only [perform, stepped]
          have run : machine.runCycles (cycles + 1) =
              ⟨⟨(after.runCycles cycles).value.completed + 1,
                (after.runCycles cycles).value.fault⟩, (after.runCycles cycles).machine,
                log ++ (after.runCycles cycles).log⟩ := by
            simp only [runCycles, stepped]
          obtain ⟨machineEq, faultEq, logEq⟩ := ih after
          rw [attempts_of_succeeded cycles (by rw [performed]; rfl), run, performed]
          refine ⟨?_, ?_, ?_⟩
          · simpa [performAll, performed] using machineEq
          · simpa [exchanges, Exchange.noteHalt, Exchange.reply, Exchange.outcome, performed]
              using faultEq
          · simpa [exchanges, Exchange.notices, Exchange.fault?, Exchange.reply, Exchange.outcome,
              performed] using logEq

theorem rewindCycles_eq_attempts (cycles : Nat) (machine : Machine) :
    let rewinding := machine.rewindCycles cycles
    let calls := machine.attempts .rewind cycles
    rewinding.2 = machine.performAll calls ∧
      (∀ halting? : Option Fault, (halting?.isSome && rewinding.1 == 0) =
        ((machine.exchanges calls).foldl Exchange.noteHalt halting?).isSome) ∧
      (machine.exchanges calls).flatMap Exchange.notices = [] := by
  induction cycles generalizing machine with
  | zero => exact ⟨rfl, by simp [rewindCycles, attempts, exchanges], rfl⟩
  | succ cycles ih =>
      cases past : machine.history.states with
      | nil =>
          have performed := perform_rewind_of_nil past
          have nothing : machine.rewind? = none := by
            simp only [rewind?, History.undo?, past, Option.map_none]
          rw [attempts_of_failed cycles (by rw [performed]; rfl)]
          refine ⟨?_, ?_, ?_⟩
          · simp [rewindCycles, nothing, performAll, performed]
          · simp [rewindCycles, nothing, exchanges, Exchange.noteHalt, Exchange.reply,
              Exchange.outcome, performed]
          · simp [exchanges, Exchange.notices, Exchange.fault?, Exchange.reply,
              Exchange.outcome, performed]
      | cons newest older =>
          have performed := perform_rewind_of_cons past
          have restored : machine.rewind? = some
              { machine with state := { newest with redraw := true }, history := ⟨older⟩ } := by
            simp only [rewind?, History.undo?, past, Option.map_some]
          obtain ⟨machineEq, haltEq, logEq⟩ :=
            ih { machine with state := { newest with redraw := true }, history := ⟨older⟩ }
          rw [attempts_of_succeeded cycles (by rw [performed]; rfl), performed]
          refine ⟨?_, ?_, ?_⟩
          · simpa [rewindCycles, restored, performAll, performed] using machineEq
          · simpa [rewindCycles, restored, exchanges, Exchange.noteHalt, Exchange.reply,
              Exchange.outcome, performed] using haltEq none
          · simpa [exchanges, Exchange.notices, Exchange.fault?, Exchange.reply,
              Exchange.outcome, performed] using logEq

end Machine

theorem Key.ofByte?_toByte (key : Key) : ofByte? key.toByte = some key := by
  have small : key.val < UInt8.size := Nat.lt_trans key.isLt (by decide)
  have byteEq : key.toByte.toNat = key.val := UInt8.toNat_ofNat_of_lt small
  simp only [ofByte?, byteEq, key.isLt, dite_true]

namespace Event

/-- The key of the keypad that an event is about, and whether it goes down. -/
def keyChange? : Event → Option (Key × Bool)
  | .keyDown host =>
    match host.bind Keymap.input? with
    | some (.key key) => some (key, true)
    | _ => none
  | .keyUp host =>
    match host.bind Keymap.input? with
    | some (.key key) => some (key, false)
    | _ => none
  | .closed | .other => none

/-- The call with which a session passes an event on. -/
def call? (event : Event) : Option Call :=
  event.keyChange?.map fun (key, down) => .setKey key.toByte down

def ends : Event → Bool
  | .keyDown host => host.bind Keymap.input? == some .quit
  | .closed => true
  | .keyUp _ | .other => false

end Event

namespace Session

/-- The events that a turn takes before it notices that the session ends. -/
def heard (events : List Event) : List Event :=
  events.takeWhile fun event => !event.ends

theorem heard_eq_self {events : List Event} (noneEnds : events.any Event.ends = false) :
    heard events = events := by
  induction events with
  | nil => rfl
  | cons event events ih =>
      obtain ⟨goesOn, rest⟩ := Bool.or_eq_false_iff.mp noneEnds
      simp only [heard, List.takeWhile_cons, goesOn, Bool.not_false, if_true]
      exact congrArg _ (ih rest)

theorem holdKey_eq_performAll (machine : Machine) (key : Key) (down : Bool) :
    machine.holdKey key down = machine.performAll [.setKey key.toByte down] := by
  simp only [Machine.performAll, List.foldl_cons, List.foldl_nil, Machine.perform,
    Machine.setKey, Key.ofByte?_toByte]

theorem ends_of_receive?_eq_none {session : Session} {event : Event}
    (refused : session.receive? event = none) : event.ends = true := by
  cases event with
  | keyDown host =>
      rcases mapped : host.bind Keymap.input? with _ | (key | _ | _ | _)
      case some.quit => simp [Event.ends, mapped]
      all_goals simp [receive?, mapped] at refused
  | keyUp host =>
      rcases mapped : host.bind Keymap.input? with _ | (key | _ | _ | _)
      all_goals simp [receive?, mapped] at refused
  | closed => rfl
  | other => cases refused

/-- An event that does not end the session makes at most its call and changes
the modes of the session. -/
theorem machine_of_receive? {session received : Session} {event : Event}
    (took : session.receive? event = some received) :
    event.ends = false ∧ received.halted = session.halted ∧
      received.machine = session.machine.performAll event.call?.toList := by
  cases event with
  | keyDown host =>
      rcases mapped : host.bind Keymap.input? with _ | (key | _ | _ | _)
      case some.quit => simp [receive?, mapped] at took
      all_goals
        simp only [receive?, mapped, Option.some.injEq] at took
        subst took
      case some.key =>
        refine ⟨by simp [Event.ends, mapped], rfl, ?_⟩
        simpa [Event.call?, Event.keyChange?, mapped] using
          holdKey_eq_performAll session.machine key true
      all_goals simp [Event.ends, Event.call?, Event.keyChange?, mapped, Machine.performAll]
  | keyUp host =>
      rcases mapped : host.bind Keymap.input? with _ | (key | _ | _ | _)
      all_goals
        simp only [receive?, mapped, Option.some.injEq] at took
        subst took
      case some.key =>
        refine ⟨rfl, rfl, ?_⟩
        simpa [Event.call?, Event.keyChange?, mapped] using
          holdKey_eq_performAll session.machine key false
      all_goals simp [Event.ends, Event.call?, Event.keyChange?, mapped, Machine.performAll]
  | closed => cases took
  | other =>
      cases took
      exact ⟨rfl, rfl, rfl⟩

/-- What the events of a turn do to the machine, and whether the session goes
on after them. -/
theorem receiveAll_eq (session : Session) (events : List Event) :
    (session.receiveAll events).1.machine =
        session.machine.performAll ((heard events).filterMap Event.call?) ∧
      (session.receiveAll events).1.halted = session.halted ∧
      (session.receiveAll events).2 = !events.any Event.ends := by
  induction events generalizing session with
  | nil => exact ⟨rfl, rfl, rfl⟩
  | cons event events ih =>
      cases took : session.receive? event with
      | none =>
          simp [receiveAll, took, heard, ends_of_receive?_eq_none took, Machine.performAll]
      | some received =>
          obtain ⟨goesOn, haltedEq, machineEq⟩ := machine_of_receive? took
          obtain ⟨restMachine, restHalted, restOn⟩ := ih received
          have calls : (heard (event :: events)).filterMap Event.call? =
              event.call?.toList ++ (heard events).filterMap Event.call? := by
            simp only [heard, List.takeWhile_cons, goesOn, Bool.not_false, if_true]
            cases made : event.call? <;> simp [made]
          have rest : session.receiveAll (event :: events) = received.receiveAll events := by
            simp only [receiveAll, took]
          refine ⟨?_, ?_, ?_⟩
          · rw [rest, restMachine, calls, Machine.performAll_append, machineEq]
          · rw [rest, restHalted, haltedEq]
          · rw [rest, restOn, List.any_cons, goesOn, Bool.false_or]

theorem silent_of_key {machine : Machine} {events : List Event} {exchange : Exchange}
    (member : exchange ∈ machine.exchanges (events.filterMap Event.call?)) :
    exchange.Silent := by
  obtain ⟨event, -, made⟩ := List.mem_filterMap.mp (Machine.call_mem_of_mem_exchanges member)
  obtain ⟨⟨key, down⟩, -, callEq⟩ := Option.map_eq_some_iff.mp made
  simp [Exchange.Silent, Exchange.reply, Exchange.outcome, ← callEq, Machine.perform,
    Machine.setKey, Key.ofByte?_toByte]

/-- The calls of one turn after its events. -/
def updateCalls (session : Session) (cycles : Nat) : List Call :=
  if session.rewinding then
    session.machine.attempts .rewind cycles
  else if session.halted then
    []
  else
    session.machine.attempts .step cycles ++ [.tick]

def calls (session : Session) (cycles : Nat) (events : List Event) : List Call :=
  let keys := (heard events).filterMap Event.call?
  match session.receiveAll events with
  | (received, true) => keys ++ received.updateCalls cycles ++ [.takeFrame]
  | (_, false) => keys

theorem calls_of_goesOn {session : Session} {events : List Event} (cycles : Nat)
    (goesOn : (session.receiveAll events).2 = true) :
    session.calls cycles events =
      (heard events).filterMap Event.call? ++
        (session.receiveAll events).1.updateCalls cycles ++ [.takeFrame] := by
  rcases taken : session.receiveAll events with ⟨received, continues⟩
  rw [taken] at goesOn
  cases goesOn
  simp only [calls, taken]

theorem calls_of_ended {session : Session} {events : List Event} (cycles : Nat)
    (ended : (session.receiveAll events).2 = false) :
    session.calls cycles events = (heard events).filterMap Event.call? := by
  rcases taken : session.receiveAll events with ⟨received, continues⟩
  rw [taken] at ended
  cases ended
  simp only [calls, taken]

theorem update_eq_conversation (session : Session) (cycles : Nat) :
    let exchanges := session.machine.exchanges (session.updateCalls cycles)
    (session.update cycles).1.machine = session.machine.performAll (session.updateCalls cycles) ∧
      (∀ halting? : Option Fault, session.halted = halting?.isSome →
        (session.update cycles).1.halted = (exchanges.foldl Exchange.noteHalt halting?).isSome) ∧
      (session.update cycles).2 = exchanges.flatMap Exchange.notices := by
  cases rewinding : session.rewinding with
  | true =>
      obtain ⟨machineEq, haltedEq, logEq⟩ := session.machine.rewindCycles_eq_attempts cycles
      simp only [update, updateCalls, rewinding, if_true]
      refine ⟨machineEq, ?_, logEq.symm⟩
      intro halting? known
      rw [known]
      exact haltedEq halting?
  | false =>
      cases halted : session.halted with
      | true =>
          simp [update, updateCalls, rewinding, halted, Machine.exchanges, Machine.performAll]
      | false =>
          obtain ⟨machineEq, faultEq, logEq⟩ := session.machine.runCycles_eq_attempts cycles
          have ticked : ∀ machine : Machine,
              machine.exchanges [.tick] = [⟨machine, .tick⟩] := fun machine => rfl
          simp only [update, updateCalls, rewinding, halted, Bool.false_eq_true, if_false,
            Machine.exchanges_append, List.foldl_append, List.flatMap_append, ticked]
          refine ⟨?_, ?_, ?_⟩
          · rw [Machine.performAll_append, ← machineEq]
            rfl
          · intro halting? known
            have unhalted : halting? = none :=
              Option.not_isSome_iff_eq_none.mp (by rw [← known]; decide)
            rw [unhalted, faultEq]
            rfl
          · rw [logEq]
            simp [Exchange.notices, Exchange.fault?, Exchange.reply, Exchange.outcome,
              Machine.perform]

theorem play_of_goesOn {session : Session} {events : List Event} (cycles : Nat)
    (goesOn : (session.receiveAll events).2 = true) :
    let received := (session.receiveAll events).1
    let updated := (received.update cycles).1
    let outcome := session.play cycles events
    outcome.session.machine = updated.machine.takeFrame.2 ∧
      outcome.session.halted = updated.halted ∧
      outcome.turn.log = (received.update cycles).2 ∧
      outcome.turn.shown = updated.machine.takeFrame.1.toList ∧
      outcome.continues = true := by
  rcases taken : session.receiveAll events with ⟨received, continues⟩
  rw [taken] at goesOn
  cases goesOn
  simp [play, taken, setTone, present]

theorem play_of_ended {session : Session} {events : List Event} (cycles : Nat)
    (ended : (session.receiveAll events).2 = false) :
    let received := (session.receiveAll events).1
    let outcome := session.play cycles events
    outcome.session.machine = received.machine ∧
      outcome.session.halted = received.halted ∧
      outcome.turn.log = [] ∧ outcome.turn.shown = [] ∧ outcome.continues = false := by
  rcases taken : session.receiveAll events with ⟨received, continues⟩
  rw [taken] at ended
  cases ended
  simp [play, taken, setTone]

/-- A turn that rewinds makes no other call of its own, one that is halted makes
none, and any other executes and ticks. -/
theorem mem_updateCalls {session : Session} {cycles : Nat} {call : Call}
    (member : call ∈ session.updateCalls cycles) :
    session.rewinding = true ∧ call = .rewind ∨
      session.rewinding = false ∧ session.halted = false ∧ (call = .step ∨ call = .tick) := by
  unfold updateCalls at member
  split at member
  · rename_i rewinding
    exact Or.inl ⟨rewinding, Machine.eq_of_mem_attempts member⟩
  · rename_i onward
    split at member
    · cases member
    · rename_i running
      refine Or.inr ⟨Bool.eq_false_iff.mpr onward, Bool.eq_false_iff.mpr running, ?_⟩
      rcases List.mem_append.mp member with attempted | ticked
      · exact Or.inl (Machine.eq_of_mem_attempts attempted)
      · exact Or.inr (List.mem_singleton.mp ticked)

/-- A turn is made of the replies of its machine. -/
theorem play_eq_conversation (session : Session) (cycles : Nat) (events : List Event) :
    let outcome := session.play cycles events
    let exchanges := session.machine.exchanges (session.calls cycles events)
    outcome.session.machine = session.machine.performAll (session.calls cycles events) ∧
      (∀ halting? : Option Fault, session.halted = halting?.isSome →
        outcome.session.halted = (exchanges.foldl Exchange.noteHalt halting?).isSome) ∧
      outcome.turn.log = exchanges.flatMap Exchange.notices ∧
      outcome.turn.shown = exchanges.filterMap Exchange.picture? := by
  obtain ⟨receivedMachine, receivedHalted, -⟩ := receiveAll_eq session events
  have silent : ∀ exchange ∈ session.machine.exchanges ((heard events).filterMap Event.call?),
      exchange.Silent := fun exchange => silent_of_key
  cases goesOn : (session.receiveAll events).2 with
  | false =>
      obtain ⟨machineEq, haltedEq, logEq, shownEq, -⟩ := play_of_ended cycles goesOn
      simp only [calls_of_ended cycles goesOn]
      refine ⟨?_, ?_, ?_, ?_⟩
      · rw [machineEq, receivedMachine]
      · intro halting? known
        rw [haltedEq, receivedHalted, known, Exchange.foldl_noteHalt_of_silent silent]
      · rw [logEq, Exchange.flatMap_notices_of_silent silent]
      · rw [shownEq, Exchange.filterMap_picture?_of_silent silent]
  | true =>
      obtain ⟨machineEq, haltedEq, logEq, shownEq, -⟩ := play_of_goesOn cycles goesOn
      have callsEq := calls_of_goesOn cycles goesOn
      generalize (session.receiveAll events).1 = received at *
      obtain ⟨updatedMachine, updatedHalted, updatedLog⟩ :=
        update_eq_conversation received cycles
      have unseen : (received.machine.exchanges (received.updateCalls cycles)).filterMap
          Exchange.picture? = [] := by
        refine List.filterMap_eq_nil_iff.mpr fun exchange member => ?_
        refine Exchange.picture?_eq_none ?_
        rcases mem_updateCalls (Machine.call_mem_of_mem_exchanges member) with
          ⟨-, callEq⟩ | ⟨-, -, callEq | callEq⟩ <;> simp [callEq]
      have exchangesEq : session.machine.exchanges (session.calls cycles events) =
          session.machine.exchanges ((heard events).filterMap Event.call?) ++
            received.machine.exchanges (received.updateCalls cycles) ++
              [⟨(received.update cycles).1.machine, .takeFrame⟩] := by
        rw [callsEq, Machine.exchanges_append, Machine.exchanges_append,
          Machine.performAll_append, ← receivedMachine, ← updatedMachine]
        rfl
      simp only [exchangesEq, List.foldl_append, List.flatMap_append, List.filterMap_append]
      refine ⟨?_, ?_, ?_, ?_⟩
      · rw [machineEq, callsEq, Machine.performAll_append, Machine.performAll_append,
          ← receivedMachine, ← updatedMachine]
        rfl
      · intro halting? known
        rw [haltedEq, updatedHalted halting? (receivedHalted.trans known),
          Exchange.foldl_noteHalt_of_silent silent]
        rfl
      · rw [logEq, updatedLog, Exchange.flatMap_notices_of_silent silent]
        simp [Exchange.notices, Exchange.fault?, Exchange.reply, Exchange.outcome,
          Machine.perform]
      · rw [shownEq, Exchange.filterMap_picture?_of_silent silent, unseen]
        cases handed : (received.update cycles).1.machine.takeFrame.1 <;>
          simp [Exchange.picture?, Exchange.reply, Exchange.outcome, Machine.perform, handed]

end Session

end ChipEight
