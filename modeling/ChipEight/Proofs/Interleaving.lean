import ChipEight.Proofs.FaultAtomicity
import ChipEight.Proofs.Refusal
import ChipEight.Proofs.Replaying

/-!
# Steps, ticks and keys in any order

A program that uses no timer and no key cannot tell when its timers are counted
down and when keys are moved.  Its steps go through the same states, apart from
the timers and keys, in whatever order they are mixed with ticks and key writes;
and the timers depend on the number of ticks alone, and each key on the order of
its own writes.
-/

namespace ChipEight

/-- The state with its timers stopped and its keys released. -/
def State.detached (state : State) : State :=
  { state with delayTimer := 0, soundTimer := 0, keypad := .released }

theorem State.ext_detached {first second : State} (same : first.detached = second.detached)
    (delayTimer : first.delayTimer = second.delayTimer)
    (soundTimer : first.soundTimer = second.soundTimer)
    (keypad : first.keypad = second.keypad) : first = second := by
  have attach : ∀ state : State, state = { state.detached with
      delayTimer := state.delayTimer, soundTimer := state.soundTimer, keypad := state.keypad } :=
    fun _ => rfl
  rw [attach first, attach second, same, delayTimer, soundTimer, keypad]

theorem Word.execute_detached {word : Word} (plain : word.Plain) (dialect : Dialect) (byte : UInt8)
    (state : State) :
    word.execute dialect byte state.detached =
      (word.execute dialect byte state).map State.detached := by
  let detach : Peripherals → Peripherals := fun peripherals =>
    ⟨0, 0, .released, peripherals.redraw⟩
  have keepsMark : Peripherals.KeepsMark detach := fun _ => rfl
  exact execute_adjust keepsMark plain dialect byte state

/-- What a step did, apart from the timers and keys. -/
structure StepRecord where
  fetched : Except Fault Word
  reply : Reply
  log : List Notice
  before : State
  after : State

/-- The record of a call, if it is a step. -/
def Exchange.stepRecord? (exchange : Exchange) : Option StepRecord :=
  if exchange.call = .step then
    some {
      fetched := exchange.before.state.fetch
      reply := exchange.reply
      log := exchange.outcome.log
      before := exchange.before.state.detached
      after := exchange.after.state.detached }
  else
    none

/-- A step leaves the timers and keys alone. -/
def Exchange.Steady (exchange : Exchange) : Prop :=
  exchange.call = .step →
    exchange.after.state.delayTimer = exchange.before.state.delayTimer ∧
      exchange.after.state.soundTimer = exchange.before.state.soundTimer ∧
      exchange.after.state.keypad = exchange.before.state.keypad

/-- A step that executes a plain word, or none, leaves timers and keys alone. -/
theorem Exchange.steady_of_plain {exchange : Exchange}
    (plain : ∀ word, exchange.executed? = some word → word.Plain) : exchange.Steady := by
  intro steps
  obtain ⟨before, call⟩ := exchange
  cases steps
  have performed := before.performs_step
  simp only [Exchange.after, Exchange.outcome, Machine.perform]
  generalize before.step.value = answer at performed
  generalize before.step.machine = after at performed
  cases performed with
  | @executed word state fetched executed =>
      have wordPlain := plain word (Exchange.executed?_of_executed fetched executed)
      exact word.peripherals_of_execute wordPlain executed
  | faulted => exact ⟨rfl, rfl, rfl⟩

/-- The value that a call writes to a key. -/
def Call.write? (key : Key) : Call → Option Bool
  | .setKey byte down => if Key.ofByte? byte = some key then some down else none
  | _ => none

namespace Machine

/-- The records of the steps of a run, in order. -/
def stepRecords (machine : Machine) (calls : List Call) : List StepRecord :=
  (machine.exchanges calls).filterMap Exchange.stepRecord?

theorem stepRecords_cons (machine : Machine) (call : Call) (calls : List Call) :
    machine.stepRecords (call :: calls) =
      (Exchange.stepRecord? ⟨machine, call⟩).toList ++
        (machine.perform call).machine.stepRecords calls := by
  rw [stepRecords, exchanges, List.filterMap_cons]
  cases Exchange.stepRecord? ⟨machine, call⟩ <;> rfl

/-- A run whose executed words use no timer and no key. -/
def Plain (machine : Machine) (calls : List Call) : Prop :=
  ∀ exchange ∈ machine.exchanges calls, ∀ word, exchange.executed? = some word → word.Plain

/-- A run whose steps leave the timers to the ticks and the keys to the key writes. -/
def Steady (machine : Machine) (calls : List Call) : Prop :=
  ∀ exchange ∈ machine.exchanges calls, exchange.Steady

theorem Plain.steady {machine : Machine} {calls : List Call} (plain : machine.Plain calls) :
    machine.Steady calls :=
  fun exchange member => Exchange.steady_of_plain (plain exchange member)

/-- Machines that differ in their timers and keys, and in what they remember. -/
structure Matches (first second : Machine) : Prop where
  state : first.state.detached = second.state.detached
  config : first.config = second.config
  random : first.random = second.random

namespace Matches

variable {first second third : Machine}

theorem refl (machine : Machine) : machine.Matches machine :=
  ⟨rfl, rfl, rfl⟩

theorem trans (same : first.Matches second) (later : second.Matches third) :
    first.Matches third :=
  ⟨same.state.trans later.state, same.config.trans later.config, same.random.trans later.random⟩

theorem fetch (same : first.Matches second) : first.state.fetch = second.state.fetch := by
  have detached : ∀ state : State, state.detached.fetch = state.fetch := fun _ => rfl
  rw [← detached first.state, same.state, detached]

theorem step_value (same : first.Matches second) : first.step.value = second.step.value := by
  have detached : ∀ state : State, state.detached.fault? = state.fault? := by
    intro state
    apply State.fault?_congr <;> rfl
  rw [step_value_eq, step_value_eq, ← detached first.state, same.state, detached]

theorem step_log (same : first.Matches second) : first.step.log = second.step.log := by
  have detached : ∀ (machine : Machine) (word : Word), machine.stepLog word =
      (if machine.config.trace then [machine.state.detached.traceNotice word] else []) ++
        if word.decode.isNone then [.unknownWord word machine.state.detached.pc] else [] :=
    fun _ _ => rfl
  rw [log_step, log_step, same.fetch]
  cases second.state.fetch with
  | error fault => rfl
  | ok word => simp only [detached, same.state, same.config]

theorem exists_execute (same : first.Matches second) {word : Word} (plain : word.Plain)
    {state : State}
    (executed : word.execute first.config.dialect first.random.byte first.state = .ok state) :
    ∃ other, word.execute second.config.dialect second.random.byte second.state = .ok other ∧
      state.detached = other.detached := by
  have detached := word.execute_detached plain first.config.dialect first.random.byte first.state
  rw [executed, same.state, same.config, same.random, word.execute_detached plain] at detached
  cases executedToo : word.execute second.config.dialect second.random.byte second.state with
  | error fault =>
      rw [executedToo] at detached
      cases detached
  | ok other =>
      rw [executedToo] at detached
      exact ⟨other, rfl, (Except.ok.inj detached).symm⟩

theorem step_machine (same : first.Matches second)
    (plain : ∀ word, Exchange.executed? ⟨first, .step⟩ = some word → word.Plain) :
    first.step.machine.Matches second.step.machine := by
  have performed := first.performs_step
  generalize first.step.value = answer at performed
  generalize first.step.machine = after at performed
  cases performed with
  | @executed word state fetched executed =>
      have wordPlain := plain word (Exchange.executed?_of_executed fetched executed)
      obtain ⟨other, executedToo, detached⟩ := same.exists_execute wordPlain executed
      rw [step_of_executed (same.fetch.symm.trans fetched) executedToo]
      constructor
      · exact detached
      · exact same.config
      · simp only [advance, same.random]
  | @faulted fault refused =>
      rw [machine_step_of_error (same.step_value.symm.trans refused)]
      exact same

theorem executed?_step (same : first.Matches second) :
    Exchange.executed? ⟨first, .step⟩ = Exchange.executed? ⟨second, .step⟩ := by
  simp only [Exchange.executed?, Exchange.reply, Exchange.outcome, perform, same.step_value,
    same.fetch]

theorem stepRecord?_step (same : first.Matches second)
    (next : first.step.machine.Matches second.step.machine) :
    Exchange.stepRecord? ⟨first, .step⟩ = Exchange.stepRecord? ⟨second, .step⟩ := by
  simp only [Exchange.stepRecord?, Exchange.reply, Exchange.outcome, Exchange.after, perform,
    same.fetch, same.step_value, same.step_log, same.state, next.state]

end Matches

/-- A tick or a key write changes nothing but timers and keys. -/
theorem matches_perform (machine : Machine) {call : Call} (plays : call.plays = true)
    (idle : call ≠ .step) : (machine.perform call).machine.Matches machine := by
  cases call with
  | step => exact absurd rfl idle
  | tick => exact ⟨rfl, rfl, rfl⟩
  | setKey byte down =>
      simp only [perform, setKey]
      cases Key.ofByte? byte <;> exact ⟨rfl, rfl, rfl⟩
  | _ => cases plays

variable {machine : Machine} {call : Call} {calls others : List Call}

theorem plain_cons :
    machine.Plain (call :: calls) ↔
      (∀ word, Exchange.executed? ⟨machine, call⟩ = some word → word.Plain) ∧
        (machine.perform call).machine.Plain calls :=
  List.forall_mem_cons

/-- Ticks and key writes between the steps of a plain run change neither the
steps nor what they leave. -/
theorem bare_steps {first second : Machine} (same : first.Matches second)
    (plays : ∀ call ∈ calls, call.plays = true) :
    let bare := List.replicate (calls.count .step) Call.step
    (first.Plain calls ↔ second.Plain bare) ∧
      (first.Plain calls → first.stepRecords calls = second.stepRecords bare ∧
        (first.performAll calls).Matches (second.performAll bare)) := by
  induction calls generalizing first second with
  | nil => exact ⟨Iff.rfl, fun _ => ⟨rfl, same⟩⟩
  | cons call calls ih =>
      obtain ⟨playsCall, playsRest⟩ := List.forall_mem_cons.mp plays
      by_cases steps : call = .step
      · subst steps
        rw [List.count_cons_self, List.replicate_succ]
        constructor
        · rw [plain_cons, plain_cons, ← same.executed?_step]
          apply and_congr_right
          intro plain
          exact (ih (same.step_machine plain) playsRest).1
        · intro plain
          obtain ⟨plainStep, plainRest⟩ := plain_cons.mp plain
          have next := same.step_machine plainStep
          obtain ⟨records, last⟩ := (ih next playsRest).2 plainRest
          refine ⟨?_, last⟩
          rw [stepRecords_cons, stepRecords_cons, same.stepRecord?_step next]
          exact congrArg _ records
      · -- The bare run waits, and still matches.
        have waits : (first.perform call).machine.Matches second :=
          (first.matches_perform playsCall steps).trans same
        rw [List.count_cons_of_ne steps, plain_cons, stepRecords_cons, performAll_cons,
          Exchange.executed?_eq_none steps, Exchange.stepRecord?, if_neg steps]
        simpa using ih waits playsRest

theorem steady_cons :
    machine.Steady (call :: calls) ↔
      Exchange.Steady ⟨machine, call⟩ ∧ (machine.perform call).machine.Steady calls :=
  List.forall_mem_cons

theorem timers_perform (plays : call.plays = true) (steady : Exchange.Steady ⟨machine, call⟩) :
    let after := (machine.perform call).machine.state
    after.delayTimer.toNat = machine.state.delayTimer.toNat - [call].count .tick ∧
      after.soundTimer.toNat = machine.state.soundTimer.toNat - [call].count .tick := by
  intro after
  cases call with
  | step =>
      obtain ⟨delayEq, soundEq, -⟩ := steady rfl
      exact ⟨congrArg UInt8.toNat delayEq, congrArg UInt8.toNat soundEq⟩
  | tick =>
      have counted : ∀ timer : UInt8,
          (UInt8.ofNat (timer.toNat - 1)).toNat = timer.toNat - 1 := by
        intro timer
        have bounded := timer.toNat_lt
        rw [UInt8.toNat_ofNat']
        omega
      exact ⟨counted _, counted _⟩
  | setKey byte down =>
      simp only [after, perform, setKey]
      cases Key.ofByte? byte <;> exact ⟨rfl, rfl⟩
  | _ => cases plays

/-- Every tick of a steady run counts both timers down. -/
theorem timers_performAll (plays : ∀ call ∈ calls, call.plays = true)
    (steady : machine.Steady calls) :
    (machine.performAll calls).state.delayTimer.toNat =
        machine.state.delayTimer.toNat - calls.count .tick ∧
      (machine.performAll calls).state.soundTimer.toNat =
        machine.state.soundTimer.toNat - calls.count .tick := by
  induction calls generalizing machine with
  | nil => exact ⟨rfl, rfl⟩
  | cons call calls ih =>
      obtain ⟨playsCall, playsRest⟩ := List.forall_mem_cons.mp plays
      obtain ⟨steadyCall, steadyRest⟩ := steady_cons.mp steady
      obtain ⟨delayed, sounded⟩ := timers_perform playsCall steadyCall
      obtain ⟨delayedLater, soundedLater⟩ := ih playsRest steadyRest
      have counted : (call :: calls).count .tick = [call].count .tick + calls.count .tick := by
        rw [← List.singleton_append, List.count_append]
      rw [performAll_cons, counted, ← Nat.sub_sub, ← Nat.sub_sub, ← delayed, ← sounded]
      exact ⟨delayedLater, soundedLater⟩

theorem isDown_perform (plays : call.plays = true) (steady : Exchange.Steady ⟨machine, call⟩)
    (key : Key) :
    (machine.perform call).machine.state.keypad.isDown key =
      (call.write? key).getD (machine.state.keypad.isDown key) := by
  cases call with
  | step =>
      obtain ⟨-, -, keypadEq⟩ := steady rfl
      exact congrArg (Keypad.isDown · key) keypadEq
  | tick => rfl
  | setKey byte down =>
      simp only [perform, setKey, Call.write?]
      cases named : Key.ofByte? byte with
      | none => rfl
      | some written =>
          by_cases same : written = key
          · rw [same, if_pos rfl]
            exact Keypad.isDown_set_self ..
          · rw [if_neg (fun found => same (Option.some.inj found))]
            exact Keypad.isDown_set_of_ne _ _ same
  | _ => cases plays

/-- After a steady run every key is as it was last written. -/
theorem isDown_performAll (plays : ∀ call ∈ calls, call.plays = true)
    (steady : machine.Steady calls) (key : Key) :
    (machine.performAll calls).state.keypad.isDown key =
      (calls.filterMap (Call.write? key)).getLast?.getD (machine.state.keypad.isDown key) := by
  induction calls generalizing machine with
  | nil => rfl
  | cons call calls ih =>
      obtain ⟨playsCall, playsRest⟩ := List.forall_mem_cons.mp plays
      obtain ⟨steadyCall, steadyRest⟩ := steady_cons.mp steady
      have written := isDown_perform playsCall steadyCall key
      have rest := ih playsRest steadyRest
      rw [performAll_cons, rest, written, List.filterMap_cons]
      cases call.write? key with
      | none => rfl
      | some down => rw [List.getLast?_cons, Option.getD_some, Option.getD_some]

/-- If no executed word uses a timer or the keypad, the steps of a run are the same wherever
its ticks and key writes come, as long as the writes to each key keep their order. -/
theorem steps_in_any_order {machine : Machine} {calls others : List Call}
    (plays : ∀ call ∈ calls, call.plays = true) (plain : machine.Plain calls)
    (rearranged : others.Perm calls)
    (ordered : ∀ key, others.filterMap (Call.write? key) = calls.filterMap (Call.write? key)) :
    let first := machine.performAll calls
    let second := machine.performAll others
    machine.stepRecords others = machine.stepRecords calls ∧
      second.state = first.state ∧
      second.random = first.random ∧
      second.state.delayTimer.toNat = machine.state.delayTimer.toNat - calls.count .tick ∧
      second.state.soundTimer.toNat = machine.state.soundTimer.toNat - calls.count .tick := by
  intro first second
  have playsToo : ∀ call ∈ others, call.plays = true := fun call member =>
    plays call (rearranged.mem_iff.mp member)
  have bare := bare_steps (Matches.refl machine) plays
  have bareToo := bare_steps (Matches.refl machine) playsToo
  rw [rearranged.count_eq .step] at bareToo
  have plainToo : machine.Plain others := bareToo.1.mpr (bare.1.mp plain)
  obtain ⟨records, last⟩ := bare.2 plain
  obtain ⟨recordsToo, lastToo⟩ := bareToo.2 plainToo
  obtain ⟨delayed, sounded⟩ := timers_performAll plays plain.steady
  obtain ⟨delayedToo, soundedToo⟩ := timers_performAll playsToo plainToo.steady
  rw [rearranged.count_eq .tick] at delayedToo soundedToo
  refine ⟨recordsToo.trans records.symm, ?_, lastToo.random.trans last.random.symm, delayedToo,
    soundedToo⟩
  apply State.ext_detached
  · exact lastToo.state.trans last.state.symm
  · exact UInt8.toNat_inj.mp (delayedToo.trans delayed.symm)
  · exact UInt8.toNat_inj.mp (soundedToo.trans sounded.symm)
  · apply Keypad.ext_isDown
    intro key
    rw [isDown_performAll playsToo plainToo.steady, isDown_performAll plays plain.steady, ordered]

/-- A program whose only word jumps to the end of memory. -/
def leaping : Machine :=
  (new {} (.cycle #[])).performAll [.load #[0x1F, 0xFF]]

/-- It jumps and then faults, also if a key is pressed in between. -/
theorem steps_in_any_order_leaping :
    let calls : List Call := [.step, .step, .tick, .setKey 5 true, .setKey 5 false]
    let others : List Call := [.setKey 5 true, .step, .setKey 5 false, .tick, .step]
    leaping.Plain calls ∧ leaping.stepRecords others = leaping.stepRecords calls ∧
      (leaping.performAll others).state = (leaping.performAll calls).state := by
  intro calls others
  have first : #[(0x1F : UInt8), 0xFF][0]? = some 0x1F := rfl
  have second : #[(0x1F : UInt8), 0xFF][1]? = some 0xFF := rfl
  have fetched : leaping.state.fetch = .ok 0x1FFF := State.fetch_boot first second
  have executed : (0x1FFF : Word).execute leaping.config.dialect leaping.random.byte
      leaping.state = .ok { leaping.state with pc := 0xFFF } := rfl
  have outside : (leaping.perform .step).machine.state.fetch =
      .error (.memoryOutOfBounds 0xFFF 4096) := by
    rw [perform, step_of_executed fetched executed]
    exact State.fetch_of_outside (by decide)
  have plain : leaping.Plain calls := by
    simp only [calls, plain_cons]
    refine ⟨?_, ?_, ?_, ?_, ?_, fun exchange member => by cases member⟩
    · intro word found
      rw [Exchange.executed?_of_executed fetched executed] at found
      cases found
      exact ⟨rfl, rfl⟩
    · intro word found
      rw [Exchange.executed?_of_unfetched outside] at found
      cases found
    all_goals
      intro word found
      cases (Exchange.exists_of_executed? found).1
  have plays : ∀ call ∈ calls, call.plays = true := by decide
  have rearranged : others.Perm calls := by decide
  have ordered : ∀ key, others.filterMap (Call.write? key) =
      calls.filterMap (Call.write? key) := by decide
  obtain ⟨records, same, -⟩ := steps_in_any_order plays plain rearranged ordered
  exact ⟨plain, records, same⟩

end Machine

end ChipEight
