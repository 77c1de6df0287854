import ChipEight.State

/-!
# Instruction words

An instruction is a 16-bit word, kept in memory with its high byte first.  The
highest digit of the word selects a family of instructions, and the remaining
digits carry the operands.
-/

namespace ChipEight

/-- An instruction as it stands in memory. -/
abbrev Word := UInt16

/-- An operand that addresses memory. -/
abbrev Address := Fin Memory.size

namespace Word

/-- Join bytes to a word, high byte first. -/
def ofBytes (bytes : List UInt8) : Word :=
  bytes.foldl (fun word byte => word <<< 8 ||| byte.toUInt16) 0

/-- The highest digit, which selects the family of instructions. -/
def family (word : Word) : Fin 16 :=
  ⟨word.toNat / 0x1000, by have := word.toNat_lt; omega⟩

def x (word : Word) : Register :=
  ⟨word.toNat / 0x100 % 0x10, Nat.mod_lt _ (by decide)⟩

def y (word : Word) : Register :=
  ⟨word.toNat / 0x10 % 0x10, Nat.mod_lt _ (by decide)⟩

def digit (word : Word) : Fin 16 :=
  ⟨word.toNat % 0x10, Nat.mod_lt _ (by decide)⟩

def byte (word : Word) : UInt8 :=
  word.toUInt8

def address (word : Word) : Address :=
  ⟨word.toNat % 0x1000, Nat.mod_lt _ (by decide)⟩

end Word

end ChipEight
