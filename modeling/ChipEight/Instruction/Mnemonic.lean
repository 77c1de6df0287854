import ChipEight.Instruction.Decode
import ChipEight.Text

/-!
# Assembler notation

Instructions are shown in the usual assembler notation, an operation followed
by its operands, such as `ADD V1, V2`.  A word that stands for no instruction is
shown as data.
-/

namespace ChipEight

/-- An operation with its operands in assembler notation. -/
structure Assembly where
  operation : String
  operands : List String := []
  deriving DecidableEq, Repr

namespace Assembly

/-- The operation, and after a blank the operands with commas between. -/
def text (assembly : Assembly) : String :=
  match assembly.operands with
  | [] => assembly.operation
  | operands => assembly.operation ++ " " ++ ", ".intercalate operands

end Assembly

namespace Operand

def register (register : Register) : String :=
  "V" ++ Text.hex 1 register.val

def byte (byte : UInt8) : String :=
  Text.hex 2 byte.toNat

def address (address : Address) : String :=
  Text.hex 3 address.val

def height (height : Fin 16) : String :=
  Text.hex 1 height.val

end Operand

open Operand

namespace Condition

def assembly : Condition → Assembly
  | equalsByte x kk => ⟨"SE", [register x, byte kk]⟩
  | differsFromByte x kk => ⟨"SNE", [register x, byte kk]⟩
  | equalsRegister x y => ⟨"SE", [register x, register y]⟩
  | differsFromRegister x y => ⟨"SNE", [register x, register y]⟩
  | keyDown x => ⟨"SKP", [register x]⟩
  | keyUp x => ⟨"SKNP", [register x]⟩

end Condition

namespace Combination

def operationName : Combination → String
  | copy => "LD"
  | or => "OR"
  | and => "AND"
  | xor => "XOR"

end Combination

namespace Arithmetic

def operationName : Arithmetic → String
  | add => "ADD"
  | subtract => "SUB"
  | subtractFrom => "SUBN"

end Arithmetic

namespace Shift

def operationName : Shift → String
  | right => "SHR"
  | left => "SHL"

end Shift

namespace Instruction

def assembly : Instruction → Assembly
  | clear => ⟨"CLS", []⟩
  | ret => ⟨"RET", []⟩
  | jump target => ⟨"JP", [address target]⟩
  | jumpOffset base => ⟨"JP", [register .offset, address base]⟩
  | call target => ⟨"CALL", [address target]⟩
  | skip condition => condition.assembly
  | load x kk => ⟨"LD", [register x, byte kk]⟩
  | addByte x kk => ⟨"ADD", [register x, byte kk]⟩
  | combine operation x y => ⟨operation.operationName, [register x, register y]⟩
  | arithmetic operation x y => ⟨operation.operationName, [register x, register y]⟩
  | shift direction x => ⟨direction.operationName, [register x]⟩
  | loadIndex target => ⟨"LD", ["I", address target]⟩
  | random x mask => ⟨"RND", [register x, byte mask]⟩
  | draw x y rows => ⟨"DRW", [register x, register y, height rows]⟩
  | loadDelay x => ⟨"LD", [register x, "DT"]⟩
  | awaitKey x => ⟨"LD", [register x, "K"]⟩
  | setDelay x => ⟨"LD", ["DT", register x]⟩
  | setSound x => ⟨"LD", ["ST", register x]⟩
  | addIndex x => ⟨"ADD", ["I", register x]⟩
  | loadGlyph x => ⟨"LD", ["F", register x]⟩
  | storeDecimal x => ⟨"LD", ["B", register x]⟩
  | storeRegisters last => ⟨"LD", ["[I]", register last]⟩
  | loadRegisters last => ⟨"LD", [register last, "[I]"]⟩

end Instruction

namespace Word

def assembly (word : Word) : Assembly :=
  match word.decode with
  | some instruction => instruction.assembly
  | none => ⟨"DW", [Text.hex 4 word.toNat]⟩

/-- The text of a word in assembler notation. -/
def mnemonic (word : Word) : String :=
  word.assembly.text

end Word

end ChipEight
