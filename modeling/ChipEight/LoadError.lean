import ChipEight.Memory

/-!
# Load errors

Why a program could not be loaded.  A machine that refuses a program keeps the
one it has.
-/

namespace ChipEight

/-- Why a program was refused. -/
inductive LoadError where
  | tooLarge (size max : Nat)
  | unreadable (cause : String)
  deriving DecidableEq, Repr

namespace LoadError

/-- The error for a program of a size that does not fit into memory. -/
def oversized (size : Nat) : LoadError :=
  tooLarge size Memory.programCapacity

def message : LoadError → String
  | tooLarge size max => s!"ROM is too large ({size} bytes), max size is {max} bytes"
  | unreadable _ => "unable to read ROM"

end LoadError

end ChipEight
