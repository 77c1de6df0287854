import ChipEight.Proofs.Calls
import ChipEight.Proofs.Execution

/-!
# When an instruction is refused

Whether a step faults, and with which fault, is settled before the instruction
computes anything.  It takes the program counter, the index register, the call
stack and memory to tell, so that counting the timers down, moving keys and
presenting the picture cannot make a refused instruction acceptable.
-/

namespace ChipEight

namespace State

/-- The fault of reading or writing a block of the given length at the index
register. -/
def blockFault? (state : State) (length : Nat) : Option Fault :=
  if length = 0 ∨ state.index.toNat + length ≤ Memory.size then none
  else some (.memoryOutOfBounds state.pc (Memory.firstOutside state.index.toNat))

variable {state : State} {fault : Fault}

theorem read_index_eq_error_iff {length : Nat} :
    state.read state.index length = .error fault ↔ state.blockFault? length = some fault := by
  unfold blockFault?
  split
  · rename_i inside
    obtain ⟨bytes, -, accepted⟩ := state.read_of_inside inside
    simp [accepted]
  · rename_i outside
    simp [state.read_of_outside outside]

theorem write_index_eq_error_iff {bytes : List UInt8} {length : Nat}
    (sized : bytes.length = length) :
    state.write state.index bytes = .error fault ↔ state.blockFault? length = some fault := by
  subst sized
  unfold blockFault?
  split
  · rename_i inside
    obtain ⟨memory, -, accepted⟩ :=
      state.write_of_inside (inside.imp_left List.eq_nil_of_length_eq_zero)
    simp [accepted]
  · rename_i outside
    have refused := state.write_of_outside fun inside =>
      outside (inside.imp_left List.length_eq_zero_iff.mpr)
    simp [refused]

end State

namespace Instruction

/-- The fault with which an instruction is refused. -/
def refusal? (state : State) : Instruction → Option Fault
  | ret => if state.stack.pop?.isNone then some (.stackUnderflow state.pc) else none
  | call _ =>
    if state.stack.depth < CallStack.capacity then none else some (.stackOverflow state.pc)
  | draw _ _ height => state.blockFault? height.val
  | storeDecimal _ => state.blockFault? 3
  | storeRegisters last | loadRegisters last => state.blockFault? (last.val + 1)
  | _ => none

theorem execute_eq_error_iff {instruction : Instruction} {dialect : Dialect} {byte : UInt8}
    {state : State} {fault : Fault} :
    instruction.execute dialect byte state = .error fault ↔
      instruction.refusal? state = some fault := by
  cases instruction with
  | ret =>
      simp only [execute, refusal?]
      cases state.stack.pop? <;> simp
  | call target =>
      by_cases room : state.stack.depth < CallStack.capacity
      · simp [execute, refusal?, CallStack.push?, room]
      · simp [execute, refusal?, CallStack.push?, room]
  | draw x y height =>
      simp only [execute, refusal?, ← State.read_index_eq_error_iff]
      cases state.read state.index height.val <;> simp
  | storeDecimal x =>
      have sized : (decimalDigits (state.register x)).length = 3 := rfl
      simp only [execute, refusal?, ← State.write_index_eq_error_iff sized]
      cases state.write state.index (decimalDigits (state.register x)) <;> simp
  | storeRegisters last =>
      have sized := state.length_take_registers last
      simp only [execute, refusal?, ← State.write_index_eq_error_iff sized]
      cases state.write state.index (state.registers.toList.take (last.val + 1)) <;> simp
  | loadRegisters last =>
      simp only [execute, refusal?, ← State.read_index_eq_error_iff]
      cases state.read state.index (last.val + 1) <;> simp
  | awaitKey x =>
      rw [execute_awaitKey]
      simp [refusal?]
  | _ => simp [execute, refusal?]

end Instruction

namespace State

/-- The fault that a step faults with. -/
def fault? (state : State) : Option Fault :=
  match state.fetch with
  | .error fault => some fault
  | .ok word => word.decode.bind (Instruction.refusal? state)

/-- Nothing but the program counter, the index register, the call stack and
memory decides about a fault. -/
theorem fault?_congr {first second : State} (pc : first.pc = second.pc)
    (index : first.index = second.index) (stack : first.stack = second.stack)
    (memory : first.memory = second.memory) : first.fault? = second.fault? := by
  have fetchEq : first.fetch = second.fetch := by
    simp only [fetch, read, pc, memory]
  have refusalEq : Instruction.refusal? first = Instruction.refusal? second := by
    funext instruction
    cases instruction <;> simp only [Instruction.refusal?, blockFault?, pc, index, stack]
  rw [fault?, fault?, fetchEq, refusalEq]

end State

namespace Word

theorem execute_eq_error_iff {word : Word} {dialect : Dialect} {byte : UInt8} {state : State}
    {fault : Fault} :
    word.execute dialect byte state = .error fault ↔
      word.decode.bind (Instruction.refusal? state) = some fault := by
  unfold execute
  cases word.decode with
  | none => simp
  | some instruction => exact Instruction.execute_eq_error_iff

end Word

namespace Machine

theorem step_eq_error_iff {machine : Machine} {fault : Fault} :
    machine.step.value = .error fault ↔ machine.state.fault? = some fault := by
  unfold State.fault?
  cases fetched : machine.state.fetch with
  | error unreadable => simp [step_of_unfetched fetched]
  | ok word =>
      have refusedIff : word.execute machine.config.dialect machine.random.byte machine.state =
          .error fault ↔ word.decode.bind (Instruction.refusal? machine.state) = some fault :=
        Word.execute_eq_error_iff
      rw [← refusedIff]
      cases executed : word.execute machine.config.dialect machine.random.byte machine.state with
      | error refused => simp [step_of_refused fetched executed]
      | ok state => simp [step_of_executed fetched executed]

theorem step_value_eq (machine : Machine) :
    machine.step.value =
      match machine.state.fault? with
      | some fault => .error fault
      | none => .ok () := by
  cases stepped : machine.step.value with
  | error fault => rw [step_eq_error_iff.mp stepped]
  | ok =>
      cases faults : machine.state.fault? with
      | none => rfl
      | some fault => cases (step_eq_error_iff.mpr faults).symm.trans stepped

end Machine

end ChipEight
