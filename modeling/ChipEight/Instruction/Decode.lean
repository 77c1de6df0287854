import ChipEight.Instruction.Basic

/-!
# Decoding

Which instruction a word stands for.  Digits that a pattern does not mention
are ignored, so that several words can stand for one instruction, and words
that match no pattern stand for none.
-/

namespace ChipEight

namespace Word

/-- The instructions without operands, `0_E0` and `0_EE`. -/
def decodeControl (word : Word) : Option Instruction :=
  match word.byte with
  | 0xE0 => some .clear
  | 0xEE => some .ret
  | _ => none

/-- The instructions on two registers, `8xy_`. -/
def decodeRegisters (word : Word) : Option Instruction :=
  match word.digit.val with
  | 0x0 => some (.combine .copy word.x word.y)
  | 0x1 => some (.combine .or word.x word.y)
  | 0x2 => some (.combine .and word.x word.y)
  | 0x3 => some (.combine .xor word.x word.y)
  | 0x4 => some (.arithmetic .add word.x word.y)
  | 0x5 => some (.arithmetic .subtract word.x word.y)
  | 0x6 => some (.shift .right word.x)
  | 0x7 => some (.arithmetic .subtractFrom word.x word.y)
  | 0xE => some (.shift .left word.x)
  | _ => none

/-- The skips on a key, `Ex__`. -/
def decodeKey (word : Word) : Option Instruction :=
  match word.byte with
  | 0x9E => some (.skip (.keyDown word.x))
  | 0xA1 => some (.skip (.keyUp word.x))
  | _ => none

/-- The instructions on timers, keys, the index register and memory, `Fx__`. -/
def decodeDevice (word : Word) : Option Instruction :=
  match word.byte with
  | 0x07 => some (.loadDelay word.x)
  | 0x0A => some (.awaitKey word.x)
  | 0x15 => some (.setDelay word.x)
  | 0x18 => some (.setSound word.x)
  | 0x1E => some (.addIndex word.x)
  | 0x29 => some (.loadGlyph word.x)
  | 0x33 => some (.storeDecimal word.x)
  | 0x55 => some (.storeRegisters word.x)
  | 0x65 => some (.loadRegisters word.x)
  | _ => none

def decode (word : Word) : Option Instruction :=
  match word.family.val with
  | 0x0 => word.decodeControl
  | 0x1 => some (.jump word.address)
  | 0x2 => some (.call word.address)
  | 0x3 => some (.skip (.equalsByte word.x word.byte))
  | 0x4 => some (.skip (.differsFromByte word.x word.byte))
  | 0x5 => some (.skip (.equalsRegister word.x word.y))
  | 0x6 => some (.load word.x word.byte)
  | 0x7 => some (.addByte word.x word.byte)
  | 0x8 => word.decodeRegisters
  | 0x9 => some (.skip (.differsFromRegister word.x word.y))
  | 0xA => some (.loadIndex word.address)
  | 0xB => some (.jumpOffset word.address)
  | 0xC => some (.random word.x word.byte)
  | 0xD => some (.draw word.x word.y word.digit)
  | 0xE => word.decodeKey
  | 0xF => word.decodeDevice
  | _ => none

end Word

end ChipEight
