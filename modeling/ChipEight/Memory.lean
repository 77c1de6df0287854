import ChipEight.Glyph

/-!
# Memory

The machine addresses 4096 bytes.  The glyph sheet lies at the bottom and the
program starts at `0x200`.  Reads and writes go over whole blocks: a block that
leaves memory is refused as a whole, and the empty block is accepted at any
address, even one outside memory.
-/

namespace ChipEight

abbrev Memory.size : Nat := 4096

/-- The contents of memory, one byte per address. -/
structure Memory where
  cells : Vector UInt8 Memory.size
  deriving DecidableEq

namespace Memory

abbrev programStart : Nat := 0x200

/-- The largest program that fits between its start and the end of memory. -/
abbrev programCapacity : Nat := size - programStart

/-- Memory as it is when a program starts: the glyph sheet from address zero,
the program from `programStart`, and zero everywhere else. -/
def image (program : Array UInt8) : Memory where
  cells := Vector.ofFn fun address =>
    if address.val < programStart then
      Glyph.sheet.getD address.val 0
    else
      program.getD (address.val - programStart) 0

/-- The block of the given length at `start`, or nothing if it leaves
memory. -/
def read? (memory : Memory) (start : Nat) : Nat → Option (List UInt8)
  | 0 => some []
  | length + 1 =>
    match memory.cells[start]?, memory.read? (start + 1) length with
    | some byte, some rest => some (byte :: rest)
    | _, _ => none

/-- Store a block at `start`, or nothing if it leaves memory. -/
def write? (memory : Memory) (start : Nat) : List UInt8 → Option Memory
  | [] => some memory
  | byte :: rest =>
    if inside : start < size then
      write? ⟨memory.cells.set start byte⟩ (start + 1) rest
    else
      none

/-- The lowest address outside memory that a block reaches which starts at
`start` and leaves memory. -/
def firstOutside (start : Nat) : Nat :=
  max start size

theorem read?_isSome_iff (memory : Memory) (start length : Nat) :
    (memory.read? start length).isSome ↔ length = 0 ∨ start + length ≤ size := by
  induction length generalizing start with
  | zero => simp [read?]
  | succ length ih =>
    have tail := ih (start + 1)
    unfold read?
    by_cases inside : start < size
    · rw [Vector.getElem?_eq_getElem inside]
      cases rest : memory.read? (start + 1) length with
      | none =>
        simp [rest] at tail ⊢
        omega
      | some bytes =>
        simp [rest] at tail ⊢
        omega
    · rw [Vector.getElem?_eq_none (by omega)]
      simp
      omega

theorem length_of_read? {memory : Memory} {start length : Nat} {bytes : List UInt8}
    (accepted : memory.read? start length = some bytes) : bytes.length = length := by
  induction length generalizing start bytes with
  | zero =>
    simp [read?] at accepted
    simp [← accepted]
  | succ length ih =>
    unfold read? at accepted
    split at accepted
    · rename_i byte rest _ readRest
      simp only [Option.some.injEq] at accepted
      rw [← accepted, List.length_cons, ih readRest]
    · simp at accepted

theorem write?_isSome_iff (memory : Memory) (start : Nat) (bytes : List UInt8) :
    (memory.write? start bytes).isSome ↔ bytes = [] ∨ start + bytes.length ≤ size := by
  induction bytes generalizing memory start with
  | nil => simp [write?]
  | cons byte rest ih =>
    unfold write?
    split
    · rename_i inside
      rw [ih]
      cases rest with
      | nil =>
        simp
        omega
      | cons next rest =>
        simp
        omega
    · rename_i outside
      simp
      omega

theorem getElem?_of_read? {memory : Memory} {start length offset : Nat} {bytes : List UInt8}
    (accepted : memory.read? start length = some bytes) (within : offset < length) :
    bytes[offset]? = memory.cells[start + offset]? := by
  induction length generalizing start offset bytes with
  | zero => omega
  | succ length ih =>
    unfold read? at accepted
    split at accepted
    · rename_i byte rest first readRest
      simp only [Option.some.injEq] at accepted
      subst accepted
      cases offset with
      | zero => simp [first]
      | succ offset =>
        rw [List.getElem?_cons_succ, ih readRest (by omega),
          show start + 1 + offset = start + (offset + 1) by omega]
    · simp at accepted

theorem getElem?_write?_of_outside {memory written : Memory} {start address : Nat}
    {bytes : List UInt8} (accepted : memory.write? start bytes = some written)
    (outside : address < start ∨ start + bytes.length ≤ address) :
    written.cells[address]? = memory.cells[address]? := by
  induction bytes generalizing memory start with
  | nil =>
    simp only [write?, Option.some.injEq] at accepted
    rw [accepted]
  | cons byte rest ih =>
    rw [List.length_cons] at outside
    unfold write? at accepted
    split at accepted
    · have different : start ≠ address := by omega
      rw [ih accepted (by omega), Vector.getElem?_set_ne _ different]
    · simp at accepted

theorem getElem?_write?_of_inside {memory written : Memory} {start offset : Nat}
    {bytes : List UInt8} (accepted : memory.write? start bytes = some written)
    (within : offset < bytes.length) :
    written.cells[start + offset]? = bytes[offset]? := by
  induction bytes generalizing memory start offset with
  | nil => simp at within
  | cons byte rest ih =>
    rw [List.length_cons] at within
    unfold write? at accepted
    split at accepted
    · cases offset with
      | zero =>
        rw [Nat.add_zero, getElem?_write?_of_outside accepted (by omega),
          Vector.getElem?_set_self]
        rfl
      | succ offset =>
        rw [List.getElem?_cons_succ, ← ih accepted (by omega),
          show start + 1 + offset = start + (offset + 1) by omega]
    · simp at accepted

@[ext]
theorem ext_getElem? {first second : Memory}
    (same : ∀ address, address < size → first.cells[address]? = second.cells[address]?) :
    first = second := by
  obtain ⟨first⟩ := first
  obtain ⟨second⟩ := second
  congr 1
  apply Vector.ext
  intro address inside
  have sameCell := same address inside
  rw [Vector.getElem?_eq_getElem inside, Vector.getElem?_eq_getElem inside] at sameCell
  exact Option.some.inj sameCell

theorem getElem?_image (program : Array UInt8) {address : Nat} (inside : address < size) :
    (image program).cells[address]? =
      some (if address < programStart then Glyph.sheet.getD address 0
        else program.getD (address - programStart) 0) := by
  rw [Vector.getElem?_eq_getElem inside]
  simp only [image, Vector.getElem_ofFn]

/-- Loading a program is storing it behind the glyph sheet in memory that is
otherwise zero. -/
theorem write?_image {program : Array UInt8} (fits : program.size ≤ programCapacity) :
    (image #[]).write? programStart program.toList = some (image program) := by
  have inside : programStart + program.toList.length ≤ size := by
    simp only [Array.length_toList, programCapacity, programStart, size] at fits ⊢
    omega
  have accepted := (write?_isSome_iff (image #[]) programStart program.toList).mpr (Or.inr inside)
  obtain ⟨written, stored⟩ := Option.isSome_iff_exists.mp accepted
  rw [stored, Option.some.injEq]
  ext address within
  rw [getElem?_image program within]
  by_cases covered : programStart ≤ address ∧ address < programStart + program.size
  · obtain ⟨offset, rfl⟩ := Nat.exists_eq_add_of_le covered.1
    have offsetLt : offset < program.size := by omega
    rw [getElem?_write?_of_inside stored (by simpa using offsetLt), if_neg (by omega),
      Nat.add_sub_cancel_left]
    simp [Array.getD, offsetLt]
  · have outside : address < programStart ∨
        programStart + program.toList.length ≤ address := by
      rw [Array.length_toList]
      omega
    rw [getElem?_write?_of_outside stored outside, getElem?_image _ within]
    by_cases low : address < programStart
    · rw [if_pos low, if_pos low]
    · have beyond : ¬address - programStart < program.size := by omega
      rw [if_neg low, if_neg low]
      simp [Array.getD, beyond]

end Memory

end ChipEight
