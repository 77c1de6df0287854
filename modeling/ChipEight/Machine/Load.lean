import ChipEight.LoadError
import ChipEight.Machine.Basic
import ChipEight.ProgramSource

/-!
# Loading programs

A program replaces the state, the history and the stored program together, or
nothing at all.
-/

namespace ChipEight

namespace Machine

/-- Load a program and start over.  Returns the number of bytes loaded. -/
def load (machine : Machine) (program : Array UInt8) : Outcome (Except LoadError Nat) :=
  if Memory.programCapacity < program.size then
    ⟨.error (.oversized program.size), machine, []⟩
  else
    ⟨.ok program.size, { machine with program }.reset, [.programLoaded program.size]⟩

/-- Load a program from a source.  One byte more than the largest program is
asked for, so that a program that is too large is refused and not cut. -/
def loadFrom (machine : Machine) (source : ProgramSource) : Outcome (Except LoadError Nat) :=
  match (source.collect (Memory.programCapacity + 1)).1 with
  | .ok bytes => machine.load bytes.toArray
  | .error cause => ⟨.error (.unreadable cause), machine, []⟩

end Machine

end ChipEight
