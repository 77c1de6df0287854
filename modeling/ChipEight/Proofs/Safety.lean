import ChipEight.Proofs.InPlace.Calls

/-!
# Every run is safe

A new machine stays within its bounds whatever it is asked, also if calls
fail.  Carried out in place the same run never lets arithmetic leave its word
or an index its array.
-/

namespace ChipEight

/-- Whatever a new machine is asked, it keeps its configuration and stays
within its bounds, no call of the run crashes, and the occupied slots of its
call stack are a slice of all slots. -/
theorem Machine.bounded_and_never_crashes (config : Config) (random : RandomSource)
    (calls : List Call) :
    let fresh := Machine.new config random
    let machine := fresh.performAll calls
    machine.config = config ∧ machine.Bounded ∧
      Effect.outcome (Call.inPlaceAll calls) ⟨fresh, []⟩ =
        (.ok ((fresh.outcomes calls).map Outcome.value),
          ⟨machine, (fresh.outcomes calls).flatMap Outcome.log⟩) ∧
      Effect.outcome Effect.callStack ⟨machine, []⟩ =
        (.ok machine.state.stack.toList, ⟨machine, []⟩) ∧
      machine.state.stack.toList.length = machine.state.stack.depth := by
  intro fresh machine
  have bounded : machine.Bounded := bounded_performAll config random calls
  have kept : machine.config = config := config_performAll _ calls
  refine ⟨kept, bounded, ?_, Effect.outcome_callStack _ bounded, ?_⟩
  · exact Call.outcome_inPlaceAll calls ⟨fresh, []⟩ (bounded_new config random)
  · exact CallStack.length_toList bounded.state.depth_le

end ChipEight
