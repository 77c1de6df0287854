import ChipEight.Machine.Basic

/-!
# Effects in place

An interpreter that keeps a single machine overwrites it bit by bit.  An effect
is a step of such an interpreter: what it wrote stays written when it ends
early.  It ends early in two ways.  It refuses with a fault, or it crashes
because arithmetic leaves its word or an index leaves its array.
-/

namespace ChipEight

inductive Stop where
  | refused (fault : Fault)
  | crashed
  deriving DecidableEq, Repr

/-- The one machine that effects overwrite, and what they reported so far. -/
structure Bench where
  machine : Machine
  log : List Notice

namespace Bench

def withState (bench : Bench) (state : State) : Bench where
  machine := { bench.machine with state }
  log := bench.log

@[simp]
theorem state_withState (bench : Bench) (state : State) :
    (bench.withState state).machine.state = state :=
  rfl

@[simp]
theorem log_withState (bench : Bench) (state : State) : (bench.withState state).log = bench.log :=
  rfl

@[simp]
theorem config_withState (bench : Bench) (state : State) :
    (bench.withState state).machine.config = bench.machine.config :=
  rfl

@[simp]
theorem withState_self (bench : Bench) : bench.withState bench.machine.state = bench :=
  rfl

@[simp]
theorem withState_withState (bench : Bench) (first second : State) :
    (bench.withState first).withState second = bench.withState second :=
  rfl

end Bench

abbrev Effect := ExceptT Stop (StateM Bench)

namespace Effect

variable {α β : Type}

/-- The result of an effect and what it leaves behind, also if it ended
early. -/
def outcome (effect : Effect α) (bench : Bench) : Except Stop α × Bench :=
  Id.run (StateT.run (ExceptT.run effect) bench)

def refuse (fault : Fault) : Effect α :=
  throw (.refused fault)

def crash : Effect α :=
  throw .crashed

/-- Crash unless a condition holds. -/
def demand (condition : Prop) [Decidable condition] : Effect Unit :=
  if condition then pure () else crash

/-- The element that an index selects.  Crash if it selects none. -/
def element : Option α → Effect α
  | some value => pure value
  | none => crash

def machine : Effect Machine := do
  return (← get).machine

def state : Effect State := do
  return (← machine).state

def updateMachine (change : Machine → Machine) : Effect Unit :=
  modify fun bench => { bench with machine := change bench.machine }

def update (change : State → State) : Effect Unit :=
  updateMachine fun machine => { machine with state := change machine.state }

def report (notice : Notice) : Effect Unit :=
  modify fun bench => { bench with log := bench.log ++ [notice] }

/-- Turn a refusal into a result.  A crash stays a crash. -/
def attempt (effect : Effect Unit) : Effect (Except Fault Unit) :=
  tryCatch (do effect; return .ok ()) fun
    | .refused fault => return .error fault
    | .crashed => crash

@[simp]
theorem outcome_pure (value : α) (bench : Bench) :
    outcome (pure value) bench = (.ok value, bench) :=
  rfl

@[simp]
theorem outcome_bind (effect : Effect α) (next : α → Effect β) (bench : Bench) :
    outcome (effect >>= next) bench =
      match outcome effect bench with
      | (.ok value, later) => outcome (next value) later
      | (.error stop, later) => (.error stop, later) := by
  change Id.run (StateT.run (ExceptT.run (effect >>= next)) bench) = _
  rw [ExceptT.run_bind, StateT.run_bind]
  unfold outcome
  rcases StateT.run (ExceptT.run effect) bench with ⟨stop | value, later⟩ <;> rfl

@[simp]
theorem outcome_map (change : α → β) (effect : Effect α) (bench : Bench) :
    outcome (change <$> effect) bench =
      match outcome effect bench with
      | (.ok value, later) => (.ok (change value), later)
      | (.error stop, later) => (.error stop, later) := by
  rw [map_eq_pure_bind, outcome_bind]
  rfl

@[simp]
theorem outcome_tryCatch (effect : Effect α) (handle : Stop → Effect α) (bench : Bench) :
    outcome (tryCatch effect handle) bench =
      match outcome effect bench with
      | (.ok value, later) => (.ok value, later)
      | (.error stop, later) => outcome (handle stop) later := by
  simp only [outcome, tryCatch, tryCatchThe, MonadExceptOf.tryCatch, ExceptT.tryCatch,
    ExceptT.run, ExceptT.mk, StateT.run, bind, StateT.bind, Id.run]
  rcases effect bench with ⟨stop | value, later⟩ <;> rfl

@[simp]
theorem outcome_refuse (fault : Fault) (bench : Bench) :
    outcome (refuse fault : Effect α) bench = (.error (.refused fault), bench) :=
  rfl

@[simp]
theorem outcome_crash (bench : Bench) :
    outcome (crash : Effect α) bench = (.error .crashed, bench) :=
  rfl

@[simp]
theorem outcome_element_some (value : α) (bench : Bench) :
    outcome (element (some value)) bench = (.ok value, bench) :=
  rfl

theorem outcome_demand {condition : Prop} {decidable : Decidable condition}
    (holds : condition) (bench : Bench) :
    outcome (demand condition) bench = (.ok (), bench) := by
  rw [demand, if_pos holds, outcome_pure]

@[simp]
theorem outcome_machine (bench : Bench) : outcome machine bench = (.ok bench.machine, bench) :=
  rfl

@[simp]
theorem outcome_state (bench : Bench) :
    outcome state bench = (.ok bench.machine.state, bench) :=
  rfl

@[simp]
theorem outcome_updateMachine (change : Machine → Machine) (bench : Bench) :
    outcome (updateMachine change) bench =
      (.ok (), { bench with machine := change bench.machine }) :=
  rfl

@[simp]
theorem outcome_update (change : State → State) (bench : Bench) :
    outcome (update change) bench =
      (.ok (), bench.withState (change bench.machine.state)) :=
  rfl

@[simp]
theorem outcome_report (notice : Notice) (bench : Bench) :
    outcome (report notice) bench = (.ok (), { bench with log := bench.log ++ [notice] }) :=
  rfl

end Effect

end ChipEight
