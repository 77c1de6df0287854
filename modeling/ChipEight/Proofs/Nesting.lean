import ChipEight.Proofs.Exchanges
import ChipEight.Proofs.FaultCauses
import ChipEight.Proofs.Peripherals

/-!
# Calls and returns

Read as a list, the call stack holds the return addresses of the calls that have
not returned yet, oldest first.  Nothing but calls and returns changes it, so
that a part of a run in which every call returns leaves it as it was, and the
return that follows goes back behind the call that preceded it.
-/

namespace ChipEight

namespace Word

variable {word : Word} {dialect : Dialect} {byte : UInt8} {before after : State}

theorem toList_of_call (calls : word.isCall = true)
    (executed : word.execute dialect byte before = .ok after) :
    after.stack.toList = before.stack.toList ++ [before.pc + 2] := by
  simp only [execute, decode_of_isCall calls] at executed
  obtain ⟨stack, pushed, rfl⟩ := Instruction.execute_call_eq_ok_iff.mp executed
  exact CallStack.toList_of_push? pushed

theorem toList_of_return (returns : word.isReturn = true)
    (executed : word.execute dialect byte before = .ok after) :
    before.stack.toList = after.stack.toList ++ [after.pc] := by
  simp only [execute, isReturn_iff.mp returns] at executed
  obtain ⟨⟨address, stack⟩, popped, rfl⟩ := Instruction.execute_ret_eq_ok_iff.mp executed
  exact CallStack.toList_of_pop? popped

theorem stack_of_execute (stays : word.isCall = false) (remains : word.isReturn = false)
    (executed : word.execute dialect byte before = .ok after) : after.stack = before.stack := by
  unfold execute at executed
  split at executed
  · rename_i instruction decoded
    rcases Instruction.stack_of_execute executed with same | ⟨target, rfl, -⟩ | ⟨rfl, -⟩
    · exact same
    · cases stays.symm.trans (isCall_of_decode decoded)
    · cases remains.symm.trans (isReturn_iff.mpr decoded)
  · cases executed
    rfl

end Word

/-- Whether a call neither goes back to an earlier state nor starts over. -/
def Call.onward : Call → Bool
  | .step | .tick | .setKey _ _ | .takeFrame | .clearRedraw => true
  | _ => false

namespace Exchange

/-- Whether a call was executed. -/
def enters (exchange : Exchange) : Bool :=
  exchange.executed?.any Word.isCall

/-- Whether a return was executed. -/
def leaves (exchange : Exchange) : Bool :=
  exchange.executed?.any Word.isReturn

/-- What an exchange does to the return addresses that wait, oldest first. -/
def noteReturns (waiting : List UInt16) (exchange : Exchange) : List UInt16 :=
  if exchange.enters then waiting ++ [exchange.before.state.pc + 2]
  else if exchange.leaves then waiting.dropLast
  else waiting

theorem leaves_of_enters {exchange : Exchange} (enters : exchange.enters = true) :
    exchange.leaves = false := by
  unfold Exchange.enters at enters
  unfold Exchange.leaves
  cases recorded : exchange.executed? with
  | none => rfl
  | some word =>
      rw [recorded] at enters
      exact Word.isReturn_of_isCall enters

/-- An exchange that goes on and executes nothing changes nothing but timers,
keys and the mark of the picture. -/
theorem exists_withPeripherals_of_unexecuted {exchange : Exchange}
    (onward : exchange.call.onward = true) (unexecuted : exchange.executed? = none) :
    ∃ peripherals,
      exchange.after.state = exchange.before.state.withPeripherals peripherals := by
  refine ⟨exchange.after.state.peripherals, ?_⟩
  obtain ⟨before, call⟩ := exchange
  have performed := before.performs_perform call
  simp only [executed?, after, reply, outcome] at onward unexecuted ⊢
  generalize (before.perform call).value = answer at performed unexecuted
  generalize (before.perform call).machine = after at performed
  cases performed with
  | executed fetched executed =>
      rw [fetched] at unexecuted
      cases unexecuted
  | rewound | exhausted | reset | loaded | tooLarge | loadedFrom | refusedFrom => cases onward
  | _ => rfl

theorem stack_after_of_unexecuted {exchange : Exchange} (onward : exchange.call.onward = true)
    (unexecuted : exchange.executed? = none) :
    exchange.after.state.stack = exchange.before.state.stack := by
  obtain ⟨peripherals, stateEq⟩ := exists_withPeripherals_of_unexecuted onward unexecuted
  rw [stateEq]
  rfl

theorem toList_after {exchange : Exchange} (onward : exchange.call.onward = true) :
    exchange.after.state.stack.toList =
      exchange.noteReturns exchange.before.state.stack.toList := by
  cases recorded : exchange.executed? with
  | none =>
      rw [stack_after_of_unexecuted onward recorded, noteReturns, enters, leaves, recorded]
      rfl
  | some word =>
      obtain ⟨-, -, state, executed, afterEq⟩ := exists_of_executed? recorded
      rw [afterEq, noteReturns, enters, leaves, recorded, Option.any_some, Option.any_some]
      cases calls : word.isCall with
      | true => exact Word.toList_of_call calls executed
      | false =>
          cases returns : word.isReturn with
          | true =>
              rw [Word.toList_of_return returns executed]
              exact List.dropLast_concat.symm
          | false => exact congrArg _ (Word.stack_of_execute calls returns executed)

end Exchange

/-- The return addresses that wait after a run from an empty call stack. -/
def returnAddresses (exchanges : List Exchange) : List UInt16 :=
  exchanges.foldl Exchange.noteReturns []

/-- A part of a run in which every call returns, and every return belongs to one
of its calls. -/
inductive WellNested : List Exchange → Prop where
  | nil : WellNested []
  | plain {exchange : Exchange} {rest : List Exchange} :
      exchange.enters = false → exchange.leaves = false → WellNested rest →
        WellNested (exchange :: rest)
  | nested {entry exit : Exchange} {inner rest : List Exchange} :
      entry.enters = true → WellNested inner → exit.leaves = true → WellNested rest →
        WellNested (entry :: inner ++ exit :: rest)

/-- Whatever waits before a well-nested part of a run waits after it. -/
theorem WellNested.foldl_noteReturns {exchanges : List Exchange} (nested : WellNested exchanges)
    (waiting : List UInt16) : exchanges.foldl Exchange.noteReturns waiting = waiting := by
  induction nested generalizing waiting with
  | nil => rfl
  | plain stays remains _ ih =>
      rw [List.foldl_cons, Exchange.noteReturns, stays, remains]
      exact ih waiting
  | @nested entry exit inner rest enters _ leaves _ innerIH restIH =>
      have entered : entry.noteReturns waiting = waiting ++ [entry.before.state.pc + 2] := by
        rw [Exchange.noteReturns, if_pos enters]
      have stays : exit.enters = false := by
        apply Bool.eq_false_iff.mpr
        intro enters
        cases (Exchange.leaves_of_enters enters).symm.trans leaves
      have left : exit.noteReturns (waiting ++ [entry.before.state.pc + 2]) = waiting := by
        rw [Exchange.noteReturns, stays, if_neg Bool.false_ne_true, if_pos leaves,
          List.dropLast_concat]
      rw [List.foldl_append, List.foldl_cons, List.foldl_cons, entered, innerIH, left, restIH]

namespace Machine

variable {machine : Machine} {calls : List Call} {word : Word}

theorem toList_performAll (machine : Machine) (onward : ∀ call ∈ calls, call.onward = true) :
    (machine.performAll calls).state.stack.toList =
      (machine.exchanges calls).foldl Exchange.noteReturns machine.state.stack.toList := by
  induction calls generalizing machine with
  | nil => rfl
  | cons call calls ih =>
      have first := @Exchange.toList_after ⟨machine, call⟩ (onward call List.mem_cons_self)
      rw [exchanges, List.foldl_cons, ← first]
      exact ih _ fun later member => onward later (List.mem_cons_of_mem _ member)

theorem step_value_of_call (depth_le : machine.state.stack.depth ≤ CallStack.capacity)
    (fetched : machine.state.fetch = .ok word) (calls : word.isCall = true) :
    machine.step.value =
      if machine.state.stack.toList.length = CallStack.capacity then
        .error (.stackOverflow machine.state.pc)
      else .ok () := by
  have faultEq : machine.state.fault? =
      if machine.state.stack.depth < CallStack.capacity then none
      else some (.stackOverflow machine.state.pc) := by
    simp only [State.fault?, fetched, Word.bind_refusal?_of_isCall calls]
  rw [step_value_eq, faultEq, CallStack.length_toList depth_le]
  by_cases room : machine.state.stack.depth < CallStack.capacity
  · rw [if_pos room, if_neg (Nat.ne_of_lt room)]
  · rw [if_neg room, if_pos (Nat.le_antisymm depth_le (Nat.le_of_not_lt room))]

theorem step_value_of_return (depth_le : machine.state.stack.depth ≤ CallStack.capacity)
    (fetched : machine.state.fetch = .ok word) (returns : word.isReturn = true) :
    machine.step.value =
      if machine.state.stack.toList = [] then .error (.stackUnderflow machine.state.pc)
      else .ok () := by
  have emptyIff : machine.state.stack.depth = 0 ↔ machine.state.stack.toList = [] := by
    rw [← CallStack.length_toList depth_le, List.length_eq_zero_iff]
  have faultEq : machine.state.fault? =
      if machine.state.stack.toList = [] then some (.stackUnderflow machine.state.pc)
      else none := by
    simp only [State.fault?, fetched, Word.bind_refusal?_of_isReturn depth_le returns, emptyIff]
  rw [step_value_eq, faultEq]
  by_cases nothing : machine.state.stack.toList = []
  · rw [if_pos nothing, if_pos nothing]
  · rw [if_neg nothing, if_neg nothing]

theorem pc_of_return (depth_le : machine.state.stack.depth ≤ CallStack.capacity)
    (fetched : machine.state.fetch = .ok word) (returns : word.isReturn = true)
    {waiting : List UInt16} {address : UInt16}
    (known : machine.state.stack.toList = waiting ++ [address]) :
    machine.step.value = .ok () ∧ machine.step.machine.state.pc = address ∧
      machine.step.machine.state.stack.toList = waiting := by
  have accepted : machine.step.value = .ok () := by
    rw [step_value_of_return depth_le fetched returns, if_neg]
    rw [known]
    exact List.concat_ne_nil address waiting
  obtain ⟨state, executed, steppedEq⟩ := exists_of_stepped fetched accepted
  have left := Word.toList_of_return returns executed
  rw [known] at left
  obtain ⟨waitingEq, addressEq⟩ := List.append_inj' left rfl
  rw [steppedEq]
  exact ⟨accepted, (List.singleton_inj.mp addressEq).symm, waitingEq.symm⟩

/-- A call, whatever well-nested calls come after it, and its return: execution
goes on behind the call, and the same return addresses wait as before it. -/
theorem returns_behind_call (bounded : machine.Bounded)
    (enters : Exchange.enters ⟨machine, .step⟩ = true)
    (onward : ∀ call ∈ calls, call.onward = true)
    (nested : WellNested (machine.step.machine.exchanges calls)) :
    let leaving := machine.step.machine.performAll calls
    leaving.state.fetch = .ok word → word.isReturn = true →
      leaving.step.value = .ok () ∧
        leaving.step.machine.state.pc.toNat = machine.state.pc.toNat + 2 ∧
        leaving.step.machine.state.stack.toList = machine.state.stack.toList ∧
        leaving.step.machine.state.stack.depth = machine.state.stack.depth := by
  intro leaving fetched returns
  obtain ⟨entry, recorded, -⟩ := (Option.any_eq_true _ _).mp enters
  have entryFetched := (Exchange.exists_of_executed? recorded).2.1
  have entered : machine.step.machine.state.stack.toList =
      machine.state.stack.toList ++ [machine.state.pc + 2] := by
    have after := @Exchange.toList_after ⟨machine, .step⟩ rfl
    rwa [Exchange.noteReturns, if_pos enters] at after
  have known : leaving.state.stack.toList =
      machine.state.stack.toList ++ [machine.state.pc + 2] := by
    rw [machine.step.machine.toList_performAll onward, nested.foldl_noteReturns, entered]
  have enteredBounded : machine.step.machine.Bounded := bounded.performs machine.performs_step
  have leavingBounded : leaving.Bounded :=
    invariant_performAll Bounded Bounded.performs enteredBounded calls
  obtain ⟨accepted, counter, waiting⟩ :=
    pc_of_return leavingBounded.state.depth_le fetched returns known
  have leftBounded : leaving.step.machine.Bounded :=
    leavingBounded.performs leaving.performs_step
  refine ⟨accepted, ?_, waiting, ?_⟩
  · have inside : machine.state.pc.toNat + 2 ≤ Memory.size :=
      State.pc_add_two_le_of_fetch entryFetched
    rw [counter, UInt16.toNat_add]
    simp only [UInt16.reduceToNat, Memory.size] at inside ⊢
    omega
  · rw [← CallStack.length_toList leftBounded.state.depth_le, waiting,
      CallStack.length_toList bounded.state.depth_le]

/-- The call stack holds the return addresses that wait, at most sixteen of them.  A call is
left behind itself and at its own depth, whatever well-nested calls come in between. -/
theorem callStack_eq_returnAddresses (machine : Machine) {loading : Call} {size : Nat}
    (loaded : (machine.perform loading).value = .loaded (.ok size)) {calls : List Call}
    (onward : ∀ call ∈ calls, call.onward = true) :
    let start := (machine.perform loading).machine
    let reached := start.performAll calls
    let waiting := returnAddresses (start.exchanges calls)
    reached.state.stack.toList = waiting ∧ reached.state.stack.depth = waiting.length ∧
      waiting.length ≤ CallStack.capacity ∧
      (∀ word, reached.state.fetch = .ok word → word.isCall = true →
        reached.step.value =
          if waiting.length = CallStack.capacity then .error (.stackOverflow reached.state.pc)
          else .ok ()) ∧
      (∀ word, reached.state.fetch = .ok word → word.isReturn = true →
        reached.step.value =
            (if waiting = [] then .error (.stackUnderflow reached.state.pc) else .ok ()) ∧
          ∀ address, waiting.getLast? = some address →
            reached.step.machine.state.pc = address) ∧
      (Exchange.enters ⟨reached, .step⟩ = true → ∀ inner : List Call,
        (∀ call ∈ inner, call.onward = true) →
        WellNested (reached.step.machine.exchanges inner) →
        let leaving := reached.step.machine.performAll inner
        ∀ word, leaving.state.fetch = .ok word → word.isReturn = true →
          leaving.step.value = .ok () ∧
            leaving.step.machine.state.pc.toNat = reached.state.pc.toNat + 2 ∧
            leaving.step.machine.state.stack.toList = waiting ∧
            leaving.step.machine.state.stack.depth = reached.state.stack.depth) := by
  intro start reached waiting
  obtain ⟨program, fits, -, startEq⟩ := exists_of_loaded loaded
  have startBounded : start.Bounded := by
    rw [show start = _ from startEq]
    exact bounded_reset machine fits
  have bounded : reached.Bounded :=
    invariant_performAll Bounded Bounded.performs startBounded calls
  have depth_le := bounded.state.depth_le
  have known : reached.state.stack.toList = waiting := by
    have vacant : start.state.stack.toList = [] := by
      rw [show start = _ from startEq]
      rfl
    rw [start.toList_performAll onward, vacant]
    rfl
  have depthEq : reached.state.stack.depth = waiting.length := by
    rw [← known, CallStack.length_toList depth_le]
  refine ⟨known, depthEq, depthEq ▸ depth_le, ?_, ?_, ?_⟩
  · intro word fetched calls
    rw [← known]
    exact step_value_of_call depth_le fetched calls
  · intro word fetched returns
    constructor
    · rw [← known]
      exact step_value_of_return depth_le fetched returns
    · intro address last
      obtain ⟨older, split⟩ := List.getLast?_eq_some_iff.mp last
      exact (pc_of_return depth_le fetched returns (known.trans split)).2.1
  · intro enters inner onward nested leaving word fetched returns
    rw [← known]
    exact returns_behind_call bounded enters onward nested fetched returns

/-- A program that begins with a call to the return in its fifth byte. -/
theorem enters_of_load (machine : Machine) {program : Array UInt8}
    (fits : program.size ≤ Memory.programCapacity)
    (high : program[0]? = some 0x22) (low : program[1]? = some 0x04)
    (exitHigh : program[4]? = some 0x00) (exitLow : program[5]? = some 0xEE) :
    let start := (machine.perform (.load program)).machine
    (machine.perform (.load program)).value = .loaded (.ok program.size) ∧
      Exchange.enters ⟨start, .step⟩ = true ∧
      (start.step.machine.performAll [.tick]).state.fetch = .ok 0x00EE := by
  intro start
  have performed := machine.perform_load_of_fits fits
  have startEq : start = { machine with program }.reset := congrArg Outcome.machine performed
  have stateEq : start.state = .boot program := by
    rw [startEq]
    rfl
  have fetched : start.state.fetch = .ok 0x2204 := by
    rw [stateEq]
    exact State.fetch_boot high low
  obtain ⟨stack, pushed⟩ : ∃ stack, CallStack.empty.push? 0x202 = some stack := ⟨_, rfl⟩
  have executed : Word.execute 0x2204 start.config.dialect start.random.byte start.state =
      .ok { State.boot program with pc := 0x204, stack } := by
    have decoded : Word.decode 0x2204 = some (.call 0x204) := rfl
    rw [stateEq]
    simp only [Word.execute, decoded]
    exact Instruction.execute_call_eq_ok_iff.mpr ⟨stack, pushed, rfl⟩
  have recorded := Exchange.executed?_of_executed fetched executed
  refine ⟨congrArg Outcome.value performed, ?_, ?_⟩
  · rw [Exchange.enters, recorded]
    rfl
  · have stepped : start.step.machine =
        start.advance 0x2204 { State.boot program with pc := 0x204, stack } :=
      congrArg Outcome.machine (step_of_executed fetched executed)
    have inside : 4 + 1 < Memory.programCapacity := by decide
    have counter : (0x204 : UInt16).toNat = Memory.programStart + 4 := rfl
    rw [stepped]
    apply State.fetch_of_image ?_ counter inside exitHigh exitLow
    rfl

/-- That call is left behind itself, with a tick on the way. -/
theorem callStack_eq_returnAddresses_calling :
    let fresh := new {} (.cycle #[])
    let loading : Call := .load #[0x22, 0x04, 0x00, 0x00, 0x00, 0xEE]
    let start := (fresh.perform loading).machine
    (fresh.perform loading).value = .loaded (.ok 6) ∧
      Exchange.enters ⟨start, .step⟩ = true ∧
      (start.step.machine.performAll [.tick]).step.machine.state.pc.toNat =
        start.state.pc.toNat + 2 := by
  intro fresh loading start
  have high : #[(0x22 : UInt8), 0x04, 0x00, 0x00, 0x00, 0xEE][0]? = some 0x22 := rfl
  have low : #[(0x22 : UInt8), 0x04, 0x00, 0x00, 0x00, 0xEE][1]? = some 0x04 := rfl
  have exitHigh : #[(0x22 : UInt8), 0x04, 0x00, 0x00, 0x00, 0xEE][4]? = some 0x00 := rfl
  have exitLow : #[(0x22 : UInt8), 0x04, 0x00, 0x00, 0x00, 0xEE][5]? = some 0xEE := rfl
  obtain ⟨loaded, enters, fetched⟩ :=
    enters_of_load fresh (by decide) high low exitHigh exitLow
  have none : ∀ call ∈ ([] : List Call), call.onward = true := by simp
  have known := callStack_eq_returnAddresses fresh loaded none
  have onward : ∀ call ∈ [Call.tick], call.onward = true := by
    intro call member
    rw [List.mem_singleton.mp member]
    rfl
  have nested : WellNested (start.step.machine.exchanges [.tick]) := .plain rfl rfl .nil
  have returns : Word.isReturn 0x00EE = true := by decide
  refine ⟨loaded, enters, ?_⟩
  exact (known.2.2.2.2.2 enters [.tick] onward nested 0x00EE fetched returns).2.1

end Machine

end ChipEight
