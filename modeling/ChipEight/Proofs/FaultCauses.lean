import ChipEight.Proofs.Decoding
import ChipEight.Proofs.FaultAtomicity
import ChipEight.Proofs.Refusal
import Mathlib.Order.Bounds.Defs

/-!
# What causes a fault

A step faults if the word at the program counter leaves memory, if a call finds
every slot of the call stack in use or a return none, and if a word that reads or
writes a block at the index register would leave memory with it.  The digits of
the word, the program counter, the index register and the depth of the call stack
settle which of these is the case, and nothing else makes a step fault.
-/

namespace ChipEight

namespace Word

/-- The words that read or write a block at the index register, with the length
of the block: `Dxyn`, `Fx33`, `Fx55` and `Fx65`. -/
inductive Accesses (word : Word) : Nat → Prop where
  | draw : word.family.val = 0xD → word.Accesses word.digit.val
  | storeDecimal : word.family.val = 0xF → word.byte = 0x33 → word.Accesses 3
  | storeRegisters : word.family.val = 0xF → word.byte = 0x55 → word.Accesses (word.x.val + 1)
  | loadRegisters : word.family.val = 0xF → word.byte = 0x65 → word.Accesses (word.x.val + 1)

/-- The reasons to refuse a word, each with its fault. -/
inductive Refused (word : Word) (state : State) : Fault → Prop where
  | call : word.isCall = true → state.stack.depth = CallStack.capacity →
      word.Refused state (.stackOverflow state.pc)
  | ret : word.isReturn = true → state.stack.depth = 0 →
      word.Refused state (.stackUnderflow state.pc)
  | access {length : Nat} : word.Accesses length → 0 < length →
      Memory.size < state.index.toNat + length →
      word.Refused state (.memoryOutOfBounds state.pc (max state.index.toNat Memory.size))

end Word

namespace State

/-- The faults of a step.  The word at the program counter takes two cells, so
that the last address at which a word can stand is `0xFFE`. -/
inductive Refuses (state : State) : Fault → Prop where
  | unreadable : 0xFFF ≤ state.pc.toNat →
      state.Refuses (.memoryOutOfBounds state.pc (max state.pc.toNat Memory.size))
  | refused {word : Word} {fault : Fault} : state.fetch = .ok word → word.Refused state fault →
      state.Refuses fault

/-- The blocks that a step reads or writes, by their start and length. -/
inductive Touches (state : State) : Nat → Nat → Prop where
  | fetched : state.Touches state.pc.toNat 2
  | accessed {word : Word} {length : Nat} : state.fetch = .ok word → word.Accesses length →
      state.Touches state.index.toNat length

variable {state : State} {fault : Fault}

theorem fetch_eq_error_iff :
    state.fetch = .error fault ↔
      0xFFF ≤ state.pc.toNat ∧
        .memoryOutOfBounds state.pc (max state.pc.toNat Memory.size) = fault := by
  by_cases inside : state.pc.toNat + 2 ≤ Memory.size
  · obtain ⟨bytes, -, accepted⟩ := state.read_of_inside (Or.inr inside)
    have low : ¬0xFFF ≤ state.pc.toNat := by
      simp only [Memory.size] at inside
      omega
    simp only [fetch, accepted, low, false_and, reduceCtorEq]
  · have high : 0xFFF ≤ state.pc.toNat := by
      simp only [Memory.size] at inside
      omega
    simp only [fetch_of_outside inside, Memory.firstOutside, high, true_and, Except.error.injEq]

theorem blockFault?_eq_some_iff {length : Nat} :
    state.blockFault? length = some fault ↔
      0 < length ∧ Memory.size < state.index.toNat + length ∧
        .memoryOutOfBounds state.pc (max state.index.toNat Memory.size) = fault := by
  unfold blockFault?
  split
  · rename_i inside
    constructor
    · rintro ⟨⟩
    · rintro ⟨positive, outside, -⟩
      omega
  · rename_i outside
    have leaves : 0 < length ∧ Memory.size < state.index.toNat + length := by omega
    simp only [Memory.firstOutside, leaves, true_and, Option.some.injEq]

end State

namespace Word

variable {word : Word} {state : State} {fault : Fault}

theorem bind_refusal?_of_accesses {length : Nat} (accesses : word.Accesses length) :
    word.decode.bind (Instruction.refusal? state) = state.blockFault? length := by
  cases accesses with
  | draw family =>
      rw [decode_of_standsFor (.draw family)]
      rfl
  | storeDecimal family byte =>
      rw [decode_of_standsFor (.storeDecimal family byte)]
      rfl
  | storeRegisters family byte =>
      rw [decode_of_standsFor (.storeRegisters family byte)]
      rfl
  | loadRegisters family byte =>
      rw [decode_of_standsFor (.loadRegisters family byte)]
      rfl

/-- Only calls, returns and the words that access a block can be refused. -/
theorem kind_of_refusal (refusal : word.decode.bind (Instruction.refusal? state) = some fault) :
    word.isCall = true ∨ word.isReturn = true ∨ ∃ length, word.Accesses length := by
  obtain ⟨instruction, decoded, refusal⟩ := Option.bind_eq_some_iff.mp refusal
  cases standsFor_of_decode decoded with
  | call => exact Or.inl (isCall_of_decode decoded)
  | ret => exact Or.inr (Or.inl (isReturn_iff.mpr decoded))
  | draw family => exact Or.inr (Or.inr ⟨_, .draw family⟩)
  | storeDecimal family byte => exact Or.inr (Or.inr ⟨_, .storeDecimal family byte⟩)
  | storeRegisters family byte => exact Or.inr (Or.inr ⟨_, .storeRegisters family byte⟩)
  | loadRegisters family byte => exact Or.inr (Or.inr ⟨_, .loadRegisters family byte⟩)
  | _ => cases refusal

theorem bind_refusal?_of_isCall (calls : word.isCall = true) :
    word.decode.bind (Instruction.refusal? state) =
      if state.stack.depth < CallStack.capacity then none else some (.stackOverflow state.pc) := by
  rw [decode_of_isCall calls]
  rfl

theorem bind_refusal?_of_isReturn (depth_le : state.stack.depth ≤ CallStack.capacity)
    (returns : word.isReturn = true) :
    word.decode.bind (Instruction.refusal? state) =
      if state.stack.depth = 0 then some (.stackUnderflow state.pc) else none := by
  rw [isReturn_iff.mp returns, Option.bind_some, Instruction.refusal?]
  simp only [Option.isNone_iff_eq_none, CallStack.pop?_eq_none_iff depth_le]

/-- A word is refused for the reasons listed, and for no other. -/
theorem bind_refusal?_eq_some_iff (depth_le : state.stack.depth ≤ CallStack.capacity) :
    word.decode.bind (Instruction.refusal? state) = some fault ↔ word.Refused state fault := by
  constructor
  · intro refusal
    rcases kind_of_refusal refusal with calls | returns | ⟨length, accesses⟩
    · rw [bind_refusal?_of_isCall calls] at refusal
      split at refusal
      · cases refusal
      · cases refusal
        exact .call calls (by omega)
    · rw [bind_refusal?_of_isReturn depth_le returns] at refusal
      split at refusal
      · cases refusal
        exact .ret returns ‹_›
      · cases refusal
    · rw [bind_refusal?_of_accesses accesses] at refusal
      obtain ⟨positive, outside, rfl⟩ := State.blockFault?_eq_some_iff.mp refusal
      exact .access accesses positive outside
  · intro refused
    cases refused with
    | call calls full => rw [bind_refusal?_of_isCall calls, if_neg (by omega)]
    | ret returns empty => rw [bind_refusal?_of_isReturn depth_le returns, if_pos empty]
    | access accesses positive outside =>
        rw [bind_refusal?_of_accesses accesses]
        exact State.blockFault?_eq_some_iff.mpr ⟨positive, outside, rfl⟩

theorem exists_execute_of_harmless (stays : word.isCall = false) (remains : word.isReturn = false)
    (accessless : ∀ length, ¬word.Accesses length) (dialect : Dialect) (byte : UInt8)
    (state : State) : ∃ after, word.execute dialect byte state = .ok after := by
  cases executed : word.execute dialect byte state with
  | ok after => exact ⟨after, rfl⟩
  | error fault =>
      rcases kind_of_refusal (execute_eq_error_iff.mp executed) with
        calls | returns | ⟨length, accesses⟩
      · cases stays.symm.trans calls
      · cases remains.symm.trans returns
      · exact absurd accesses (accessless length)

end Word

namespace State

variable {state : State} {fault : Fault}

theorem fault?_eq_some_iff (depth_le : state.stack.depth ≤ CallStack.capacity) :
    state.fault? = some fault ↔ state.Refuses fault := by
  cases fetched : state.fetch with
  | error unreadable =>
      obtain ⟨high, rfl⟩ := fetch_eq_error_iff.mp fetched
      simp only [fault?, fetched]
      constructor
      · rintro ⟨⟩
        exact .unreadable high
      · rintro (- | ⟨found, -⟩)
        · rfl
        · cases fetched.symm.trans found
  | ok word =>
      simp only [fault?, fetched, Word.bind_refusal?_eq_some_iff depth_le]
      constructor
      · exact .refused fetched
      · rintro (high | ⟨found, refused⟩)
        · cases fetched.symm.trans (fetch_eq_error_iff.mpr ⟨high, rfl⟩)
        · cases fetched.symm.trans found
          exact refused

theorem isLeast_firstOutside {start length : Nat} (leaves : Memory.size < start + length)
    (positive : 0 < length) :
    IsLeast {address | start ≤ address ∧ address < start + length ∧ Memory.size ≤ address}
      (max start Memory.size) := by
  constructor
  · exact ⟨Nat.le_max_left .., by omega, Nat.le_max_right ..⟩
  · rintro address ⟨reached, -, outside⟩
    exact Nat.max_le.mpr ⟨reached, outside⟩

/-- A fault names the instruction that was refused, and if it is about memory the
lowest address outside memory that the step would have touched. -/
theorem Refuses.names (refuses : state.Refuses fault) :
    fault.pc = state.pc ∧
      ∀ pc address, fault = .memoryOutOfBounds pc address →
        ∃ start length, state.Touches start length ∧
          IsLeast {outside | start ≤ outside ∧ outside < start + length ∧ Memory.size ≤ outside}
            address := by
  cases refuses with
  | unreadable high =>
      have leaves : Memory.size < state.pc.toNat + 2 := by
        simp only [Memory.size]
        omega
      refine ⟨rfl, ?_⟩
      rintro pc address ⟨⟩
      exact ⟨_, _, .fetched, isLeast_firstOutside leaves Nat.two_pos⟩
  | @refused word _ fetched refused =>
      cases refused with
      | call | ret =>
          refine ⟨rfl, ?_⟩
          rintro pc address ⟨⟩
      | access accesses positive leaves =>
          refine ⟨rfl, ?_⟩
          rintro pc address ⟨⟩
          exact ⟨_, _, .accessed fetched accesses, isLeast_firstOutside leaves positive⟩

end State

namespace Machine

/-- A step of a reachable machine, in place as well, faults exactly for the reasons listed.
The fault names the refused instruction, and the lowest address outside memory that it
would have touched. -/
theorem step_eq_error_iff_refuses {machine : Machine} (reachable : machine.Reachable) :
    (∀ fault, machine.step.value = .error fault ↔ machine.state.Refuses fault) ∧
      (machine.step.value = .ok () ↔ ∀ fault, ¬machine.state.Refuses fault) ∧
      (∀ log, (Effect.outcome Effect.step ⟨machine, log⟩).1 =
        machine.step.value.mapError Stop.refused) ∧
      (∀ (word : Word) (dialect : Dialect) (byte : UInt8) (fault : Fault),
        word.execute dialect byte machine.state = .error fault ↔
          word.Refused machine.state fault) ∧
      (∀ fault, machine.state.Refuses fault → fault.pc = machine.state.pc ∧
        ∀ pc address, fault = .memoryOutOfBounds pc address →
          ∃ start length, machine.state.Touches start length ∧
            IsLeast {outside | start ≤ outside ∧ outside < start + length ∧ Memory.size ≤ outside}
              address) ∧
      ∀ word : Word, word.isCall = false → word.isReturn = false →
        (∀ length, ¬word.Accesses length) → ∀ (dialect : Dialect) (byte : UInt8) (state : State),
          ∃ after, word.execute dialect byte state = .ok after := by
  have depth_le := reachable.bounded.state.depth_le
  have faultsIff : ∀ fault, machine.step.value = .error fault ↔ machine.state.Refuses fault :=
    fun fault => step_eq_error_iff.trans (State.fault?_eq_some_iff depth_le)
  refine ⟨faultsIff, ?_, ?_, ?_, ?_, ?_⟩
  · simp only [← faultsIff]
    cases machine.step.value <;> simp
  · intro log
    rw [Effect.outcome_step ⟨machine, log⟩ reachable.bounded]
    rcases machine.step with ⟨fault | ⟨⟩, after, notices⟩ <;> rfl
  · intro word dialect byte fault
    exact Word.execute_eq_error_iff.trans (Word.bind_refusal?_eq_some_iff depth_le)
  · intro fault refuses
    exact refuses.names
  · intro word stays remains accessless
    exact Word.exists_execute_of_harmless stays remains accessless

/-- A program that points the index register at the last byte of memory and draws
two rows from there, before it draws. -/
def overreaching : Machine :=
  (new {} (.cycle #[])).performAll [.load #[0xAF, 0xFF, 0xD0, 0x02], .step]

theorem state_overreaching :
    overreaching.state =
      { State.boot #[0xAF, 0xFF, 0xD0, 0x02] with pc := 0x202, index := 0xFFF } := by
  have fits : #[(0xAF : UInt8), 0xFF, 0xD0, 0x02].size ≤ Memory.programCapacity := by decide
  have first : #[(0xAF : UInt8), 0xFF, 0xD0, 0x02][0]? = some 0xAF := rfl
  have second : #[(0xAF : UInt8), 0xFF, 0xD0, 0x02][1]? = some 0xFF := rfl
  have fetched : (State.boot #[0xAF, 0xFF, 0xD0, 0x02]).fetch = .ok 0xAFFF :=
    State.fetch_boot first second
  rw [overreaching, performAll_load_step _ fits fetched rfl]
  rfl

/-- It is refused, although its first row lies in memory. -/
theorem step_eq_error_iff_refuses_overreaching :
    overreaching.Reachable ∧
      overreaching.step.value = .error (.memoryOutOfBounds 0x202 0x1000) := by
  have reachable : overreaching.Reachable := ⟨_, _, _, rfl⟩
  have counter : overreaching.state.pc = 0x202 := by rw [state_overreaching]
  have index : overreaching.state.index = 0xFFF := by rw [state_overreaching]
  have holds : overreaching.state.memory = .image #[0xAF, 0xFF, 0xD0, 0x02] := by
    rw [state_overreaching]
    rfl
  have third : #[(0xAF : UInt8), 0xFF, 0xD0, 0x02][2]? = some 0xD0 := rfl
  have fourth : #[(0xAF : UInt8), 0xFF, 0xD0, 0x02][3]? = some 0x02 := rfl
  have fetched : overreaching.state.fetch = .ok 0xD002 :=
    State.fetch_second holds counter third fourth
  have height : (0xD002 : Word).digit.val = 2 := by decide
  have leaves : Memory.size < overreaching.state.index.toNat + (0xD002 : Word).digit.val := by
    rw [index, height]
    decide
  have refused : Word.Refused 0xD002 overreaching.state
      (.memoryOutOfBounds overreaching.state.pc (max overreaching.state.index.toNat Memory.size)) :=
    .access (.draw rfl) (by decide) leaves
  rw [counter, index] at refused
  exact ⟨reachable, ((step_eq_error_iff_refuses reachable).1 _).mpr (.refused fetched refused)⟩

end Machine

end ChipEight
