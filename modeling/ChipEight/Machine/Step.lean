import ChipEight.Instruction.Execute
import ChipEight.Machine.Basic

/-!
# Running a machine

A step fetches the word at the program counter and executes it.  Either the
step succeeds and the state before it joins the history, or it faults and the
machine stays as it was.
-/

namespace ChipEight

namespace State

def fetch (state : State) : Except Fault Word :=
  match state.read state.pc 2 with
  | .ok bytes => .ok (.ofBytes bytes)
  | .error fault => .error fault

/-- The notice that a word is about to be executed. -/
def traceNotice (state : State) (word : Word) : Notice :=
  .executing state.pc word state.registers state.index state.stack.depth

end State

namespace Machine

def stepLog (machine : Machine) (word : Word) : List Notice :=
  let trace := if machine.config.trace then [machine.state.traceNotice word] else []
  let warning := if word.decode.isNone then [.unknownWord word machine.state.pc] else []
  trace ++ warning

/-- Go on in a new state, after a word was executed. -/
def advance (machine : Machine) (word : Word) (state : State) : Machine :=
  { machine with
    state
    history := machine.history.record machine.config.history machine.state
    random := if word.drawsRandom then machine.random.advance else machine.random }

def step (machine : Machine) : Outcome (Except Fault Unit) :=
  match machine.state.fetch with
  | .error fault => ⟨.error fault, machine, []⟩
  | .ok word =>
    match word.execute machine.config.dialect machine.random.byte machine.state with
    | .error fault => ⟨.error fault, machine, machine.stepLog word⟩
    | .ok state => ⟨.ok (), machine.advance word state, machine.stepLog word⟩

/-- How far a run of several steps came. -/
structure Progress where
  completed : Nat
  fault : Option Fault
  deriving DecidableEq, Repr

/-- Execute up to the given number of words and stop at the first fault. -/
def runCycles : Nat → Machine → Outcome Progress
  | 0, machine => ⟨⟨0, none⟩, machine, []⟩
  | cycles + 1, machine =>
    match machine.step with
    | ⟨.error fault, stopped, log⟩ => ⟨⟨0, some fault⟩, stopped, log⟩
    | ⟨.ok (), stepped, log⟩ =>
      let rest := stepped.runCycles cycles
      ⟨⟨rest.value.completed + 1, rest.value.fault⟩, rest.machine, log ++ rest.log⟩

end Machine

end ChipEight
