/-!
# Configuration

Interpreters of the instruction set differ in a few behaviours, which a dialect
settles.  The remaining settings concern tracing and rewinding.
-/

namespace ChipEight

/-- The behaviours in which interpreters of the instruction set differ. -/
structure Dialect where
  /-- Whether storing and loading registers leaves the index register past the
  last byte transferred, instead of leaving it unchanged. -/
  indexIncrement : Bool := true
  deriving DecidableEq, Repr

def defaultHistory : Nat := 1200

structure Config where
  dialect : Dialect := {}
  trace : Bool := false
  /-- How many past states are kept for rewinding.  Zero keeps none. -/
  history : Nat := defaultHistory
  deriving DecidableEq, Repr

end ChipEight
