import ChipEight.Instruction.Word

/-!
# The instruction set

An instruction with its operands, independent of how it is encoded.  Encodings
that differ only in digits without meaning stand for the same instruction.
-/

namespace ChipEight

/-- What a conditional skip tests. -/
inductive Condition where
  | equalsByte (x : Register) (byte : UInt8)
  | differsFromByte (x : Register) (byte : UInt8)
  | equalsRegister (x y : Register)
  | differsFromRegister (x y : Register)
  | keyDown (x : Register)
  | keyUp (x : Register)
  deriving DecidableEq, Repr

/-- Ways to combine two registers that leave the flag register alone. -/
inductive Combination where
  | copy
  | or
  | and
  | xor
  deriving DecidableEq, Repr

/-- Arithmetic on two registers that reports in the flag register. -/
inductive Arithmetic where
  | add
  /-- The first register minus the second. -/
  | subtract
  /-- The second register minus the first. -/
  | subtractFrom
  deriving DecidableEq, Repr

/-- The direction in which a register is shifted by one bit. -/
inductive Shift where
  | right
  | left
  deriving DecidableEq, Repr

/-- An instruction with its operands. -/
inductive Instruction where
  | clear
  | ret
  | jump (target : Address)
  /-- Jump to an address plus `V0`. -/
  | jumpOffset (base : Address)
  | call (target : Address)
  | skip (condition : Condition)
  | load (x : Register) (byte : UInt8)
  /-- Add a byte and drop the carry. -/
  | addByte (x : Register) (byte : UInt8)
  | combine (operation : Combination) (x y : Register)
  | arithmetic (operation : Arithmetic) (x y : Register)
  | shift (direction : Shift) (x : Register)
  | loadIndex (address : Address)
  | random (x : Register) (mask : UInt8)
  | draw (x y : Register) (height : Fin 16)
  | loadDelay (x : Register)
  | awaitKey (x : Register)
  | setDelay (x : Register)
  | setSound (x : Register)
  | addIndex (x : Register)
  /-- Point the index register at the glyph of a digit. -/
  | loadGlyph (x : Register)
  | storeDecimal (x : Register)
  | storeRegisters (last : Register)
  | loadRegisters (last : Register)
  deriving DecidableEq, Repr

def Instruction.drawsRandom : Instruction → Bool
  | random _ _ => true
  | _ => false

namespace Combination

def apply : Combination → UInt8 → UInt8 → UInt8
  | copy, _, b => b
  | or, a, b => a ||| b
  | and, a, b => a &&& b
  | xor, a, b => a ^^^ b

end Combination

namespace Arithmetic

/-- The byte that results from two operands, and the flag: a carry for the sum,
and the absence of a borrow for the differences. -/
def apply : Arithmetic → UInt8 → UInt8 → UInt8 × Bool
  | add, a, b => (a + b, 256 ≤ a.toNat + b.toNat)
  | subtract, a, b => (a - b, b ≤ a)
  | subtractFrom, a, b => (b - a, a ≤ b)

end Arithmetic

namespace Shift

/-- The shifted byte and the bit that was shifted out. -/
def apply : Shift → UInt8 → UInt8 × Bool
  | right, a => (a >>> 1, a.toNat.testBit 0)
  | left, a => (a <<< 1, a.toNat.testBit 7)

end Shift

end ChipEight
