import ChipEight.Machine.Load
import ChipEight.Machine.Step

/-!
# Calls on a machine

Everything that can be asked of a machine, as data.  A list of calls is a
complete history of how a machine was used.
-/

namespace ChipEight

inductive Call where
  | step
  | rewind
  | tick
  | setKey (byte : UInt8) (down : Bool)
  | takeFrame
  | clearRedraw
  | reset
  | load (program : Array UInt8)
  | loadFrom (source : ProgramSource)
  deriving DecidableEq

/-- What a machine answers to a call. -/
inductive Reply where
  | done
  | stepped (result : Except Fault Unit)
  | rewound (restored : Bool)
  | frame (picture : Option Frame)
  | loaded (result : Except LoadError Nat)

namespace Machine

def perform (machine : Machine) : Call → Outcome Reply
  | .step =>
    let outcome := machine.step
    ⟨.stepped outcome.value, outcome.machine, outcome.log⟩
  | .rewind =>
    match machine.rewind? with
    | some earlier => ⟨.rewound true, earlier, []⟩
    | none => ⟨.rewound false, machine, []⟩
  | .tick => ⟨.done, machine.tick, []⟩
  | .setKey byte down =>
    let outcome := machine.setKey byte down
    ⟨.done, outcome.machine, outcome.log⟩
  | .takeFrame =>
    let (picture, presented) := machine.takeFrame
    ⟨.frame picture, presented, []⟩
  | .clearRedraw => ⟨.done, machine.clearRedraw, []⟩
  | .reset => ⟨.done, machine.reset, []⟩
  | .load program =>
    let outcome := machine.load program
    ⟨.loaded outcome.value, outcome.machine, outcome.log⟩
  | .loadFrom source =>
    let outcome := machine.loadFrom source
    ⟨.loaded outcome.value, outcome.machine, outcome.log⟩

/-- Perform calls in order.  Returns the machine after the last of them. -/
def performAll (machine : Machine) (calls : List Call) : Machine :=
  calls.foldl (fun machine call => (machine.perform call).machine) machine

/-- Perform calls in order.  Returns what each of them answered and the machine
it left. -/
def outcomes (machine : Machine) : List Call → List (Outcome Reply)
  | [] => []
  | call :: calls =>
    let outcome := machine.perform call
    outcome :: outcome.machine.outcomes calls

end Machine

end ChipEight
