import ChipEight.Machine.Step

/-!
# Fetching words

A word is fetched exactly where both of its cells lie in memory.
-/

namespace ChipEight

namespace State

theorem fetch_of_outside {state : State} (outside : ¬state.pc.toNat + 2 ≤ Memory.size) :
    state.fetch =
      .error (.memoryOutOfBounds state.pc (Memory.firstOutside state.pc.toNat)) := by
  have refused : state.read state.pc 2 = _ := state.read_of_outside (by omega)
  simp only [fetch, refused]

theorem pc_add_two_le_of_fetch {state : State} {word : Word} (fetched : state.fetch = .ok word) :
    state.pc.toNat + 2 ≤ Memory.size := by
  by_cases inside : state.pc.toNat + 2 ≤ Memory.size
  · exact inside
  · rw [fetch_of_outside inside] at fetched
    cases fetched

theorem fetch_of_cells {state : State} {high low : UInt8}
    (highFound : state.memory.cells[state.pc.toNat]? = some high)
    (lowFound : state.memory.cells[state.pc.toNat + 1]? = some low) :
    state.fetch = .ok (.ofBytes [high, low]) := by
  simp only [fetch, read, Memory.read?, highFound, lowFound]

theorem cells_of_fetch {state : State} {word : Word} (fetched : state.fetch = .ok word) :
    ∃ high low, state.memory.cells[state.pc.toNat]? = some high ∧
      state.memory.cells[state.pc.toNat + 1]? = some low ∧
      Word.ofBytes [high, low] = word := by
  have inside := pc_add_two_le_of_fetch fetched
  have highLt : state.pc.toNat < Memory.size := by omega
  have lowLt : state.pc.toNat + 1 < Memory.size := by omega
  refine ⟨state.memory.cells[state.pc.toNat], state.memory.cells[state.pc.toNat + 1],
    Vector.getElem?_eq_getElem highLt, Vector.getElem?_eq_getElem lowLt, ?_⟩
  rw [fetch_of_cells (Vector.getElem?_eq_getElem highLt)
    (Vector.getElem?_eq_getElem lowLt)] at fetched
  exact Except.ok.inj fetched

/-- Where the program lies in memory, its words are fetched. -/
theorem fetch_of_image {state : State} {program : Array UInt8} {offset : Nat} {high low : UInt8}
    (holds : state.memory = .image program)
    (counter : state.pc.toNat = Memory.programStart + offset)
    (inside : offset + 1 < Memory.programCapacity)
    (first : program[offset]? = some high) (second : program[offset + 1]? = some low) :
    state.fetch = .ok (.ofBytes [high, low]) := by
  have within : Memory.programStart + (offset + 1) < Memory.size := by
    simp only [Memory.programCapacity, Memory.programStart, Memory.size] at inside ⊢
    omega
  have cellEq : ∀ address, Memory.programStart + address < Memory.size →
      state.memory.cells[Memory.programStart + address]? = some (program.getD address 0) := by
    intro address below
    rw [holds, Memory.getElem?_image program below, if_neg (by omega), Nat.add_sub_cancel_left]
  refine fetch_of_cells ?_ ?_
  · rw [counter, cellEq offset (by omega), Array.getD_eq_getD_getElem?, first, Option.getD_some]
  · rw [counter, Nat.add_assoc, cellEq (offset + 1) within, Array.getD_eq_getD_getElem?, second,
      Option.getD_some]

/-- A program starts with the word in its first two bytes. -/
theorem fetch_boot {program : Array UInt8} {high low : UInt8}
    (first : program[0]? = some high) (second : program[1]? = some low) :
    (boot program).fetch = .ok (.ofBytes [high, low]) :=
  fetch_of_image rfl rfl (by decide) first second

theorem fetch_second {state : State} {program : Array UInt8} {high low : UInt8}
    (holds : state.memory = .image program) (counter : state.pc = 0x202)
    (first : program[2]? = some high) (second : program[3]? = some low) :
    state.fetch = .ok (.ofBytes [high, low]) := by
  have position : state.pc.toNat = Memory.programStart + 2 := by
    rw [counter]
    rfl
  exact fetch_of_image holds position (by decide) first second

end State

end ChipEight
