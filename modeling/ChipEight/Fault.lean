import ChipEight.CallStack
import ChipEight.Text

/-!
# Faults

An instruction that would break the bounds of the call stack or of memory is
refused with a fault.  A fault names the refused instruction by its address.
-/

namespace ChipEight

/-- Why an instruction was refused. -/
inductive Fault where
  | stackOverflow (pc : UInt16)
  | stackUnderflow (pc : UInt16)
  /-- An access that leaves memory, first at `address`. -/
  | memoryOutOfBounds (pc : UInt16) (address : Nat)
  deriving DecidableEq, Repr

namespace Fault

/-- Address of the refused instruction. -/
def pc : Fault → UInt16
  | stackOverflow pc => pc
  | stackUnderflow pc => pc
  | memoryOutOfBounds pc _ => pc

def kind : Fault → String
  | stackOverflow _ => "StackOverflow"
  | stackUnderflow _ => "StackUnderflow"
  | memoryOutOfBounds _ _ => "MemoryOutOfBounds"

def fields : Fault → List (String × Nat)
  | stackOverflow pc => [("pc", pc.toNat)]
  | stackUnderflow pc => [("pc", pc.toNat)]
  | memoryOutOfBounds pc address => [("pc", pc.toNat), ("address", address)]

def message : Fault → String
  | stackOverflow pc =>
    s!"stack overflow: call at 0x{Text.hex 3 pc.toNat} nests deeper than " ++
      s!"{CallStack.capacity} subroutines"
  | stackUnderflow pc =>
    s!"stack underflow: return at 0x{Text.hex 3 pc.toNat} with an empty call stack"
  | memoryOutOfBounds pc address =>
    s!"memory access out of bounds at 0x{Text.hex 4 address} " ++
      s!"by instruction at 0x{Text.hex 3 pc.toNat}"

/-- A fault written as a record, its kind in front of its fields in decimal. -/
def record (fault : Fault) : String :=
  let entries := fault.fields.map fun (name, number) => s!"{name}: {number}"
  fault.kind ++ " \x7b " ++ ", ".intercalate entries ++ " \x7d"

end Fault

end ChipEight
