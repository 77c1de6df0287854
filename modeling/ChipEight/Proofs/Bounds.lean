import ChipEight.Proofs.Calls
import ChipEight.Proofs.Execution
import ChipEight.Proofs.Fetching
import ChipEight.Proofs.Plotting

/-!
# Bounds of every reachable machine

The program counter may leave memory: a jump with an offset, a skip in the last
word or a return can put it there, and only the next fetch notices.  It still
stays below the sum of the highest address operand and the largest byte, which
leaves room for all arithmetic on it.  This bound, those of the call stack and
of the picture, and the same bounds on every recorded state hold in every run.
-/

namespace ChipEight

/-- The highest address at which the program counter can stand: the highest
address operand plus the largest byte. -/
abbrev State.counterLimit : Nat := 0x10FE

namespace State

/-- What holds of the state of a machine and of all recorded states. -/
structure Bounded (state : State) : Prop where
  depth_le : state.stack.depth ≤ CallStack.capacity
  pc_le : state.pc.toNat ≤ counterLimit
  slot_le : ∀ slot ∈ state.stack.slots, slot.toNat ≤ Memory.size
  binary : state.frame.Binary

theorem bounded_boot (program : Array UInt8) : (boot program).Bounded where
  depth_le := Nat.zero_le _
  pc_le := by
    change (UInt16.ofNat Memory.programStart).toNat ≤ counterLimit
    decide
  slot_le := by
    intro slot member
    have slotEq : slot = 0 := (Vector.mem_replicate.mp member).2
    subst slot
    decide
  binary := Frame.binary_blank

/-- Timers, keys and the mark of the picture are outside the bounds. -/
theorem Bounded.of_eq {before after : State} (bounded : before.Bounded)
    (sameStack : after.stack = before.stack) (samePc : after.pc = before.pc)
    (sameFrame : after.frame = before.frame) : after.Bounded where
  depth_le := by rw [sameStack]; exact bounded.depth_le
  pc_le := by rw [samePc]; exact bounded.pc_le
  slot_le := by rw [sameStack]; exact bounded.slot_le
  binary := by rw [sameFrame]; exact bounded.binary

end State

namespace CallStack

theorem depth_of_push? {stack pushed : CallStack} {address : UInt16}
    (accepted : stack.push? address = some pushed) :
    pushed.depth = stack.depth + 1 ∧ pushed.depth ≤ capacity := by
  unfold push? at accepted
  split at accepted
  · cases accepted
    exact ⟨rfl, by simpa using ‹_›⟩
  · cases accepted

theorem mem_slots_of_push? {stack pushed : CallStack} {address slot : UInt16}
    (accepted : stack.push? address = some pushed) (member : slot ∈ pushed.slots) :
    slot ∈ stack.slots ∨ slot = address := by
  unfold push? at accepted
  split at accepted
  · rename_i room
    cases accepted
    have changed : slot ∈ stack.slots.set stack.depth address room := member
    exact Vector.mem_or_eq_of_mem_set changed
  · cases accepted

theorem depth_of_pop? {stack popped : CallStack} {address : UInt16}
    (accepted : stack.pop? = some (address, popped)) : stack.depth = popped.depth + 1 := by
  unfold pop? at accepted
  split at accepted
  · cases accepted
  · rename_i below depthEq
    obtain ⟨top, -, popped⟩ := Option.map_eq_some_iff.mp accepted
    cases popped
    exact depthEq

theorem slots_of_pop? {stack popped : CallStack} {address : UInt16}
    (accepted : stack.pop? = some (address, popped)) :
    popped.slots = stack.slots ∧ address ∈ stack.slots := by
  unfold pop? at accepted
  split at accepted
  · cases accepted
  · obtain ⟨top, found, popped⟩ := Option.map_eq_some_iff.mp accepted
    cases popped
    exact ⟨rfl, Vector.mem_of_getElem? found⟩

end CallStack

namespace Instruction

variable {dialect : Dialect} {byte : UInt8} {instruction : Instruction} {before after : State}

theorem pc_le_of_execute (bounded : before.Bounded)
    (fetched : before.pc.toNat + 2 ≤ Memory.size)
    (executed : instruction.execute dialect byte before = .ok after) :
    after.pc.toNat ≤ State.counterLimit := by
  simp only [Memory.size, State.counterLimit] at fetched ⊢
  rcases pc_of_execute executed with
    pcEq | pcEq | pcEq | ⟨target, pcEq⟩ | ⟨base, pcEq⟩ | ⟨stack, popped⟩
  · rw [pcEq]
    omega
  · rw [pcEq, UInt16.toNat_add]
    simp only [UInt16.reduceToNat]
    omega
  · rw [pcEq, UInt16.toNat_add]
    simp only [UInt16.reduceToNat]
    omega
  · have targetLt := target.isLt
    rw [pcEq, UInt16.toNat_ofNat']
    simp only [Memory.size] at targetLt
    omega
  -- Only a jump with an offset can reach the limit.
  · have baseLt := base.isLt
    have offsetLt := (before.register .offset).toNat_lt
    rw [pcEq, UInt16.toNat_add, UInt16.toNat_ofNat', UInt8.toNat_toUInt16]
    simp only [Memory.size] at baseLt
    omega
  · have addressLe := bounded.slot_le _ (CallStack.slots_of_pop? popped).2
    simp only [Memory.size] at addressLe
    omega

theorem depth_le_of_execute (bounded : before.Bounded)
    (executed : instruction.execute dialect byte before = .ok after) :
    after.stack.depth ≤ CallStack.capacity := by
  have depthLe := bounded.depth_le
  rcases stack_of_execute executed with same | ⟨target, -, pushed⟩ | ⟨-, popped⟩
  · rw [same]
    exact depthLe
  · exact (CallStack.depth_of_push? pushed).2
  · have depthEq := CallStack.depth_of_pop? popped
    omega

theorem slot_le_of_execute (bounded : before.Bounded)
    (fetched : before.pc.toNat + 2 ≤ Memory.size)
    (executed : instruction.execute dialect byte before = .ok after) :
    ∀ slot ∈ after.stack.slots, slot.toNat ≤ Memory.size := by
  intro slot member
  rcases stack_of_execute executed with same | ⟨target, -, pushed⟩ | ⟨-, popped⟩
  · rw [same] at member
    exact bounded.slot_le slot member
  · rcases CallStack.mem_slots_of_push? pushed member with old | slotEq
    · exact bounded.slot_le slot old
    · rw [slotEq, UInt16.toNat_add]
      simp only [UInt16.reduceToNat]
      omega
  · rw [(CallStack.slots_of_pop? popped).1] at member
    exact bounded.slot_le slot member

theorem binary_of_execute (bounded : before.Bounded)
    (executed : instruction.execute dialect byte before = .ok after) :
    after.frame.Binary := by
  rcases frame_of_execute executed with
    ⟨same, -⟩ | ⟨-, blank, -⟩ | ⟨x, y, height, sprite, -, -, toggled, -⟩
  · rw [same]
    exact bounded.binary
  · rw [blank]
    exact Frame.binary_blank
  · rw [toggled]
    exact bounded.binary.toggleAll _

end Instruction

theorem Word.bounded_of_execute {word : Word} {dialect : Dialect} {byte : UInt8}
    {before after : State} (bounded : before.Bounded) (fetched : before.fetch = .ok word)
    (executed : word.execute dialect byte before = .ok after) : after.Bounded := by
  have inside := State.pc_add_two_le_of_fetch fetched
  unfold execute at executed
  split at executed
  · exact
      { depth_le := Instruction.depth_le_of_execute bounded executed
        pc_le := Instruction.pc_le_of_execute bounded inside executed
        slot_le := Instruction.slot_le_of_execute bounded inside executed
        binary := Instruction.binary_of_execute bounded executed }
  · cases executed
    refine { bounded with pc_le := ?_ }
    simp only [State.next, UInt16.toNat_add, UInt16.reduceToNat, State.counterLimit,
      Memory.size] at inside ⊢
    omega

namespace Machine

structure Bounded (machine : Machine) : Prop where
  state : machine.state.Bounded
  program_le : machine.program.size ≤ Memory.programCapacity
  history_le : machine.history.states.length ≤ machine.config.history
  history : ∀ state ∈ machine.history.states, state.Bounded

theorem bounded_new (config : Config) (random : RandomSource) : (new config random).Bounded where
  state := State.bounded_boot _
  program_le := Nat.zero_le _
  history_le := Nat.zero_le _
  history := by simp [new, History.empty]

theorem bounded_reset (machine : Machine) {program : Array UInt8}
    (fits : program.size ≤ Memory.programCapacity) : ({ machine with program }.reset).Bounded where
  state := State.bounded_boot _
  program_le := fits
  history_le := Nat.zero_le _
  history := by simp [Machine.reset, History.empty]

theorem Bounded.advance {machine : Machine} (bounded : machine.Bounded) (word : Word)
    {state : State} (stateBounded : state.Bounded) : (machine.advance word state).Bounded where
  state := stateBounded
  program_le := bounded.program_le
  history_le := History.record_length_le _ bounded.history_le
  history := by
    intro recorded member
    have kept : recorded ∈ machine.state :: machine.history.states := by
      rw [Machine.advance, History.states_record _ bounded.history_le] at member
      exact List.mem_of_mem_take member
    rcases List.mem_cons.mp kept with recordedEq | old
    · rw [recordedEq]
      exact bounded.state
    · exact bounded.history recorded old

theorem Bounded.withState {machine : Machine} (bounded : machine.Bounded) {state : State}
    (stateBounded : state.Bounded) : Machine.Bounded { machine with state } :=
  { bounded with state := stateBounded }

theorem Bounded.performs {before after : Machine} {call : Call} {reply : Reply}
    (bounded : before.Bounded) (performed : before.Performs call reply after) :
    after.Bounded := by
  cases performed with
  | executed fetched executed =>
      exact bounded.advance _ (Word.bounded_of_execute bounded.state fetched executed)
  | faulted | exhausted | ignored | upToDate | tooLarge | refusedFrom => exact bounded
  | rewound past =>
      have newestBounded := bounded.history _ (by rw [past]; exact List.mem_cons_self)
      have olderLe := bounded.history_le
      rw [past, List.length_cons] at olderLe
      exact
        { state := newestBounded.of_eq rfl rfl rfl
          program_le := bounded.program_le
          history_le := Nat.le_of_succ_le olderLe
          history := fun state member =>
            bounded.history state (by rw [past]; exact List.mem_cons_of_mem _ member) }
  | ticked | held | taken | cleared =>
      exact bounded.withState (bounded.state.of_eq rfl rfl rfl)
  | reset => exact bounded_reset before bounded.program_le
  | loaded fits | loadedFrom fits => exact bounded_reset before fits

/-- The machines that a new machine becomes by calls. -/
def Reachable (machine : Machine) : Prop :=
  ∃ config random calls, (new config random).performAll calls = machine

theorem bounded_performAll (config : Config) (random : RandomSource) (calls : List Call) :
    ((new config random).performAll calls).Bounded :=
  invariant_performAll Bounded Bounded.performs (bounded_new config random) calls

theorem Reachable.bounded {machine : Machine} (reachable : machine.Reachable) :
    machine.Bounded := by
  obtain ⟨config, random, calls, rfl⟩ := reachable
  exact bounded_performAll config random calls

end Machine

end ChipEight
