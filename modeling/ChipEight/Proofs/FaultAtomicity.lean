import ChipEight.Proofs.InPlace.Calls

/-!
# A fault changes nothing

A step that faults leaves the machine as it was, also if it is carried out in
place, where the program counter moves before the word is executed and a
handler that wrote before its checks would leave a trace.
-/

namespace ChipEight

namespace Machine

theorem machine_step_of_error {machine : Machine} {fault : Fault}
    (faulted : machine.step.value = .error fault) : machine.step.machine = machine := by
  have performed := machine.performs_step
  rw [faulted] at performed
  generalize machine.step.machine = after at performed
  cases performed
  rfl

theorem step_eq_of_error {machine : Machine} {fault : Fault}
    (faulted : machine.step.value = .error fault) :
    machine.step = ⟨.error fault, machine, machine.step.log⟩ := by
  rw [← faulted]
  conv_rhs => arg 2; rw [← machine_step_of_error faulted]

/-- In place, a faulting step reports what the whole step reports and leaves
the machine that it found. -/
theorem outcome_step_of_error {machine : Machine} (bounded : machine.Bounded) {fault : Fault}
    (faulted : machine.step.value = .error fault) (log : List Notice) :
    Effect.outcome Effect.step ⟨machine, log⟩ =
      (.error (.refused fault), ⟨machine, log ++ machine.step.log⟩) := by
  rw [Effect.outcome_step ⟨machine, log⟩ bounded]
  simp only
  rw [step_eq_of_error faulted]

/-- After a faulting step of a reachable machine, in place as well as a whole,
the machine is the one before the step.  The next step faults the same, and
every run goes on as if the step had not been asked for. -/
theorem unchanged_of_fault {machine : Machine} (reachable : machine.Reachable) {fault : Fault}
    (faulted : machine.step.value = .error fault) :
    machine.step.machine = machine ∧
      (∀ log, Effect.outcome Effect.step ⟨machine, log⟩ =
        (.error (.refused fault), ⟨machine, log ++ machine.step.log⟩)) ∧
      machine.step.machine.step.value = .error fault ∧
      machine.step.machine.perform .rewind = machine.perform .rewind ∧
      ∀ calls, machine.step.machine.outcomes calls = machine.outcomes calls := by
  have same := machine_step_of_error faulted
  refine ⟨same, ?_, ?_, ?_, ?_⟩
  · exact outcome_step_of_error reachable.bounded faulted
  · rw [same]
    exact faulted
  · rw [same]
  · intro calls
    rw [same]

/-- A return with an empty call stack while a key is down. -/
theorem unchanged_of_fault_return :
    ((new {} (.cycle #[])).performAll [.load #[0x00, 0xEE], .setKey 5 true]).Reachable ∧
      ((new {} (.cycle #[])).performAll
        [.load #[0x00, 0xEE], .setKey 5 true]).step.value = .error (.stackUnderflow 0x200) ∧
      ((new {} (.cycle #[])).performAll
        [.load #[0x00, 0xEE], .setKey 5 true]).step.machine =
          (new {} (.cycle #[])).performAll [.load #[0x00, 0xEE], .setKey 5 true] := by
  have first : #[(0x00 : UInt8), 0xEE][0]? = some 0x00 := rfl
  have second : #[(0x00 : UInt8), 0xEE][1]? = some 0xEE := rfl
  have reachable : ((new {} (.cycle #[])).performAll
      [.load #[0x00, 0xEE], .setKey 5 true]).Reachable := ⟨_, _, _, rfl⟩
  have fetched : ((new {} (.cycle #[])).performAll
      [.load #[0x00, 0xEE], .setKey 5 true]).state.fetch = .ok 0x00EE :=
    State.fetch_boot first second
  have faulted : ((new {} (.cycle #[])).performAll
      [.load #[0x00, 0xEE], .setKey 5 true]).step.value = .error (.stackUnderflow 0x200) :=
    congrArg Outcome.value (step_of_refused fetched rfl)
  exact ⟨reachable, faulted, (unchanged_of_fault reachable faulted).1⟩

end Machine

end ChipEight
