/-!
# Call stack

Return addresses live in sixteen slots, of which the lowest `depth` are in use.
A slot that has been popped keeps its old contents, but no operation looks at
it again: `toList` is the stack as the program sees it.
-/

namespace ChipEight

abbrev CallStack.capacity : Nat := 16

/-- Slots for return addresses and the number of slots in use. -/
structure CallStack where
  slots : Vector UInt16 CallStack.capacity
  depth : Nat
  deriving DecidableEq

namespace CallStack

def empty : CallStack where
  slots := Vector.replicate capacity 0
  depth := 0

/-- The return addresses on the stack, oldest first. -/
def toList (stack : CallStack) : List UInt16 :=
  stack.slots.toList.take stack.depth

/-- Put a return address on top, or nothing if every slot is in use. -/
def push? (stack : CallStack) (address : UInt16) : Option CallStack :=
  if room : stack.depth < capacity then
    some ⟨stack.slots.set stack.depth address, stack.depth + 1⟩
  else
    none

/-- Take the newest return address off, or nothing if there is none. -/
def pop? (stack : CallStack) : Option (UInt16 × CallStack) :=
  match stack.depth with
  | 0 => none
  | below + 1 => stack.slots[below]?.map fun address => (address, ⟨stack.slots, below⟩)

@[simp]
theorem toList_empty : empty.toList = [] :=
  rfl

theorem length_toList {stack : CallStack} (bounded : stack.depth ≤ capacity) :
    stack.toList.length = stack.depth := by
  rw [toList, List.length_take, Vector.length_toList]
  omega

theorem push?_eq_none_iff {stack : CallStack} {address : UInt16} :
    stack.push? address = none ↔ capacity ≤ stack.depth := by
  unfold push?
  split <;> simp <;> omega

theorem pop?_eq_none_iff {stack : CallStack} (bounded : stack.depth ≤ capacity) :
    stack.pop? = none ↔ stack.depth = 0 := by
  obtain ⟨slots, depth⟩ := stack
  cases depth with
  | zero => simp [pop?]
  | succ below =>
    have inside : below < capacity := bounded
    simp [pop?, Vector.getElem?_eq_getElem inside]

theorem toList_of_push? {stack pushed : CallStack} {address : UInt16}
    (accepted : stack.push? address = some pushed) :
    pushed.toList = stack.toList ++ [address] := by
  unfold push? at accepted
  split at accepted
  · rename_i room
    simp only [Option.some.injEq] at accepted
    subst accepted
    have long : stack.depth < stack.slots.toList.length := by simpa using room
    simp only [toList, Vector.toList_set]
    rw [List.take_succ_eq_append_getElem (by simpa using long), List.take_set_of_le (Nat.le_refl _),
      List.getElem_set_self]
  · simp at accepted

theorem toList_of_pop? {stack popped : CallStack} {address : UInt16}
    (accepted : stack.pop? = some (address, popped)) :
    stack.toList = popped.toList ++ [address] := by
  obtain ⟨slots, depth⟩ := stack
  cases depth with
  | zero => simp [pop?] at accepted
  | succ below =>
    simp only [pop?, Option.map_eq_some_iff, Prod.mk.injEq] at accepted
    obtain ⟨top, found, rfl, rfl⟩ := accepted
    have inside : below < slots.toList.length := by
      simpa using (Vector.getElem?_eq_some_iff.1 found).1
    have topEq : slots.toList[below] = top := by
      simpa using (Vector.getElem?_eq_some_iff.1 found).2
    simp only [toList]
    rw [List.take_succ_eq_append_getElem inside, topEq]

end CallStack

end ChipEight
