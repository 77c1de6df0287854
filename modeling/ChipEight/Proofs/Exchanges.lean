import ChipEight.Proofs.Calls

/-!
# Exchanges with a machine

An exchange is a call together with the machine that was asked, which settles
the reply.  The exchanges of a run record what happened in it and in which
states, so that a statement about a run can speak of the instructions executed
and the states restored on the way.
-/

namespace ChipEight

/-- A call and the machine that was asked. -/
structure Exchange where
  before : Machine
  call : Call

namespace Exchange

def outcome (exchange : Exchange) : Outcome Reply :=
  exchange.before.perform exchange.call

def reply (exchange : Exchange) : Reply :=
  exchange.outcome.value

def after (exchange : Exchange) : Machine :=
  exchange.outcome.machine

/-- The word that was executed successfully. -/
def executed? (exchange : Exchange) : Option Word :=
  match exchange.call, exchange.reply with
  | .step, .stepped (.ok ()) => exchange.before.state.fetch.toOption
  | _, _ => none

/-- The fault of an instruction that was refused. -/
def fault? (exchange : Exchange) : Option Fault :=
  match exchange.reply with
  | .stepped (.error fault) => some fault
  | _ => none

/-- Whether an earlier state was restored. -/
def restores (exchange : Exchange) : Bool :=
  match exchange.reply with
  | .rewound restored => restored
  | _ => false

/-- The picture that was handed out to be presented. -/
def picture? (exchange : Exchange) : Option Frame :=
  match exchange.reply with
  | .frame picture => picture
  | _ => none

theorem restores_eq_false {exchange : Exchange} (other : exchange.call ≠ .rewind) :
    exchange.restores = false := by
  obtain ⟨before, call⟩ := exchange
  have performed := before.performs_perform call
  simp only [restores, reply, outcome] at other ⊢
  generalize (before.perform call).value = answer at performed
  generalize (before.perform call).machine = after at performed
  cases performed <;> first | rfl | exact absurd rfl other

theorem call_of_restores {exchange : Exchange} (restores : exchange.restores = true) :
    exchange.call = .rewind := by
  refine Decidable.byContradiction fun other => ?_
  cases (restores_eq_false other).symm.trans restores

theorem executed?_eq_none {exchange : Exchange} (other : exchange.call ≠ .step) :
    exchange.executed? = none := by
  obtain ⟨before, call⟩ := exchange
  cases call <;> first | rfl | exact absurd rfl other

theorem executed?_of_executed {before : Machine} {word : Word} {state : State}
    (fetched : before.state.fetch = .ok word)
    (executed : word.execute before.config.dialect before.random.byte before.state = .ok state) :
    executed? ⟨before, .step⟩ = some word := by
  simp [executed?, reply, outcome, Machine.perform, Machine.step_of_executed fetched executed,
    fetched, Except.toOption]

theorem executed?_of_unfetched {before : Machine} {fault : Fault}
    (unfetched : before.state.fetch = .error fault) : executed? ⟨before, .step⟩ = none := by
  simp only [executed?, reply, outcome, Machine.perform, Machine.step_of_unfetched unfetched]

/-- A word that was executed had been fetched by a step, after which the machine
goes on in the new state. -/
theorem exists_of_executed? {exchange : Exchange} {word : Word}
    (recorded : exchange.executed? = some word) :
    exchange.call = .step ∧ exchange.before.state.fetch = .ok word ∧
      ∃ state, word.execute exchange.before.config.dialect exchange.before.random.byte
          exchange.before.state = .ok state ∧
        exchange.after = exchange.before.advance word state := by
  obtain ⟨before, call⟩ := exchange
  have performed := before.performs_perform call
  simp only [executed?, after, reply, outcome] at recorded ⊢
  generalize (before.perform call).value = answer at performed recorded
  generalize (before.perform call).machine = after at performed
  cases performed with
  | @executed found state fetched executed =>
      rw [fetched] at recorded
      cases recorded
      exact ⟨rfl, fetched, state, executed, rfl⟩
  | _ => cases recorded

theorem random_after_of_unexecuted {exchange : Exchange}
    (unexecuted : exchange.executed? = none) :
    exchange.after.random = exchange.before.random := by
  obtain ⟨before, call⟩ := exchange
  have performed := before.performs_perform call
  simp only [executed?, after, reply, outcome] at unexecuted ⊢
  generalize (before.perform call).value = answer at performed unexecuted
  generalize (before.perform call).machine = after at performed
  cases performed with
  | executed fetched =>
      rw [fetched] at unexecuted
      cases unexecuted
  | _ => rfl

/-- An exchange draws a random number if it executes a word that draws one, and
none otherwise. -/
theorem random_after (exchange : Exchange) :
    exchange.after.random =
      if exchange.executed?.any Word.drawsRandom then exchange.before.random.advance
      else exchange.before.random := by
  cases recorded : exchange.executed? with
  | none => exact random_after_of_unexecuted recorded
  | some word =>
      obtain ⟨-, -, state, -, afterEq⟩ := exists_of_executed? recorded
      rw [afterEq, Option.any_some]
      rfl

theorem fault?_of_refused {before : Machine} {fault : Fault}
    (refused : before.step.value = .error fault) : fault? ⟨before, .step⟩ = some fault := by
  simp only [fault?, reply, outcome, Machine.perform, refused]

theorem exists_of_restores {exchange : Exchange} (restores : exchange.restores = true) :
    ∃ newest older, exchange.before.history.states = newest :: older ∧
      exchange.after = { exchange.before with
        state := { newest with redraw := true }, history := ⟨older⟩ } := by
  obtain ⟨before, call⟩ := exchange
  have performed := before.performs_perform call
  simp only [Exchange.restores, after, reply, outcome] at restores ⊢
  generalize (before.perform call).value = answer at performed restores
  generalize (before.perform call).machine = after at performed
  cases performed with
  | @rewound newest older past => exact ⟨newest, older, past, rfl⟩
  | _ => cases restores

/-- A call records at most the state before it, and that only if it executed a
word. -/
theorem mem_history_after (exchange : Exchange) {state : State}
    (recorded : state ∈ exchange.after.history.states) :
    state ∈ exchange.before.history.states ∨
      exchange.executed?.isSome ∧ exchange.before.state = state := by
  obtain ⟨before, call⟩ := exchange
  have performed := before.performs_perform call
  simp only [after, executed?, reply, outcome] at recorded ⊢
  generalize (before.perform call).value = answer at performed
  generalize (before.perform call).machine = after at performed recorded
  cases performed with
  | executed fetched executed =>
      simp only [Machine.advance, History.record] at recorded
      split at recorded
      · exact Or.inl recorded
      · have either : state = before.state ∨ state ∈ before.history.states := by
          split at recorded
          · exact (List.mem_cons.mp recorded).imp_right (List.dropLast_sublist _).mem
          · exact List.mem_cons.mp recorded
        rcases either with rfl | old
        · exact Or.inr ⟨by rw [fetched]; rfl, rfl⟩
        · exact Or.inl old
  | rewound past =>
      rw [past]
      exact Or.inl (List.mem_cons_of_mem _ recorded)
  | reset | loaded fits | loadedFrom fits => cases recorded
  | _ => exact Or.inl recorded

end Exchange

namespace Machine

def exchanges (machine : Machine) : List Call → List Exchange
  | [] => []
  | call :: calls => ⟨machine, call⟩ :: (machine.perform call).machine.exchanges calls

variable {machine : Machine} {calls later : List Call}

theorem map_outcome_exchanges (machine : Machine) (calls : List Call) :
    (machine.exchanges calls).map Exchange.outcome = machine.outcomes calls := by
  induction calls generalizing machine with
  | nil => rfl
  | cons call calls ih => exact congrArg _ (ih _)

theorem exchanges_append (machine : Machine) (calls later : List Call) :
    machine.exchanges (calls ++ later) =
      machine.exchanges calls ++ (machine.performAll calls).exchanges later := by
  induction calls generalizing machine with
  | nil => rfl
  | cons call calls ih => exact congrArg _ (ih _)

/-- What was asked in an exchange of a run, and after which calls. -/
theorem exists_of_mem_exchanges {exchange : Exchange}
    (member : exchange ∈ machine.exchanges calls) :
    ∃ done rest, calls = done ++ exchange.call :: rest ∧
      exchange.before = machine.performAll done := by
  induction calls generalizing machine with
  | nil => cases member
  | cons call calls ih =>
      rcases List.mem_cons.mp member with rfl | member
      · exact ⟨[], calls, rfl, rfl⟩
      · obtain ⟨done, rest, rfl, before⟩ := ih member
        exact ⟨call :: done, rest, rfl, before⟩

theorem call_mem_of_mem_exchanges {exchange : Exchange}
    (member : exchange ∈ machine.exchanges calls) : exchange.call ∈ calls := by
  obtain ⟨done, rest, rfl, -⟩ := exists_of_mem_exchanges member
  simp

/-- A property that every exchange of a run preserves holds after the run. -/
theorem invariant_exchanges (Holds : Machine → Prop)
    (preserved : ∀ exchange ∈ machine.exchanges calls, Holds exchange.before →
      Holds exchange.after)
    (initially : Holds machine) :
    Holds (machine.performAll calls) := by
  induction calls generalizing machine with
  | nil => exact initially
  | cons call calls ih =>
      refine ih (fun exchange member => preserved exchange (List.mem_cons_of_mem _ member)) ?_
      exact preserved ⟨machine, call⟩ List.mem_cons_self initially

/-- Every recorded state is one from which a word was executed, unless it was
recorded before the run. -/
theorem mem_history_performAll {state : State}
    (recorded : state ∈ (machine.performAll calls).history.states) :
    state ∈ machine.history.states ∨
      ∃ past ∈ machine.exchanges calls, past.executed?.isSome ∧ past.before.state = state := by
  induction calls generalizing machine with
  | nil => exact Or.inl recorded
  | cons call calls ih =>
      rcases ih recorded with old | ⟨past, member, executed⟩
      · rcases Exchange.mem_history_after ⟨machine, call⟩ old with
          older | executed
        · exact Or.inl older
        · exact Or.inr ⟨⟨machine, call⟩, List.mem_cons_self, executed⟩
      · exact Or.inr ⟨past, List.mem_cons_of_mem _ member, executed⟩

theorem restores_eq_false_of_nil (past : machine.history.states = [])
    (unexecuted : ∀ exchange ∈ machine.exchanges calls, exchange.executed? = none)
    {exchange : Exchange} (member : exchange ∈ machine.exchanges calls) :
    exchange.restores = false := by
  refine Bool.eq_false_iff.mpr fun restores => ?_
  obtain ⟨newest, older, found, -⟩ := exchange.exists_of_restores restores
  obtain ⟨done, rest, rfl, beforeEq⟩ := exists_of_mem_exchanges member
  have recorded : newest ∈ (machine.performAll done).history.states := by
    rw [← beforeEq, found]
    exact List.mem_cons_self
  rcases mem_history_performAll recorded with old | ⟨other, earlier, executed, -⟩
  · rw [past] at old
    cases old
  · have none := unexecuted other (by
      rw [exchanges_append]
      exact List.mem_append_left _ earlier)
    rw [none] at executed
    cases executed

end Machine

end ChipEight
