import ChipEight.Proofs.Calls

/-!
# Rewinding is undoing

An undo log keeps the state before every instruction that is not undone yet,
however many there are, and counts how many of them a bounded history can still
bring back.  The count is not the smaller of the bound and the size of the log:
once a full history has dropped its oldest states, undoing makes room but does
not bring them back.  The history of a machine is the part of the log that the
count covers, after every run.
-/

namespace ChipEight

/-- The states that an unbounded history would hold, newest first, and how many
of them a bounded history still holds. -/
structure UndoLog where
  entries : List State
  available : Nat

namespace UndoLog

def empty : UndoLog where
  entries := []
  available := 0

/-- What one answered call does to the log. -/
def note (limit : Nat) (log : UndoLog) (before : Machine) : Call → Reply → UndoLog
  | .step, .stepped (.ok ()) =>
    { entries := before.state :: log.entries, available := min limit (log.available + 1) }
  | .rewind, .rewound true =>
    { entries := log.entries.tail, available := log.available - 1 }
  | .reset, _ => .empty
  | .load _, .loaded (.ok _) => .empty
  | .loadFrom _, .loaded (.ok _) => .empty
  | _, _ => log

def ofRun (config : Config) (random : RandomSource) (calls : List Call) : UndoLog :=
  Machine.observe (note config.history) .empty (.new config random) calls

/-- A machine's history is the available part of a log. -/
structure Describes (limit : Nat) (log : UndoLog) (machine : Machine) : Prop where
  limit_eq : machine.config.history = limit
  states_eq : machine.history.states = log.entries.take log.available
  available_le_limit : log.available ≤ limit
  available_le_length : log.available ≤ log.entries.length

namespace Describes

variable {limit : Nat} {log : UndoLog} {machine : Machine}

theorem empty (limit_eq : machine.config.history = limit)
    (states_eq : machine.history.states = []) :
    Describes limit .empty machine where
  limit_eq := limit_eq
  states_eq := states_eq
  available_le_limit := Nat.zero_le limit
  available_le_length := Nat.le_refl 0

theorem length_states (describes : Describes limit log machine) :
    machine.history.states.length = log.available := by
  rw [describes.states_eq, List.length_take]
  exact Nat.min_eq_left describes.available_le_length

theorem congr (describes : Describes limit log machine) {after : Machine}
    (sameHistory : after.history = machine.history) (sameConfig : after.config = machine.config) :
    Describes limit log after where
  limit_eq := by rw [sameConfig, describes.limit_eq]
  states_eq := by rw [sameHistory, describes.states_eq]
  available_le_limit := describes.available_le_limit
  available_le_length := describes.available_le_length

theorem push (describes : Describes limit log machine) (word : Word) (state : State) :
    Describes limit
      { entries := machine.state :: log.entries, available := min limit (log.available + 1) }
      (machine.advance word state) where
  limit_eq := describes.limit_eq
  states_eq := by
    -- A history above its bound would never drop a state.
    have bounded : machine.history.states.length ≤ machine.config.history := by
      rw [describes.length_states, describes.limit_eq]
      exact describes.available_le_limit
    calc
      (machine.advance word state).history.states =
          (machine.state :: machine.history.states).take machine.config.history :=
        History.states_record machine.state bounded
      _ = ((machine.state :: log.entries).take (log.available + 1)).take limit := by
        rw [describes.limit_eq, describes.states_eq, List.take_succ_cons]
      _ = (machine.state :: log.entries).take (min limit (log.available + 1)) :=
        List.take_take
  available_le_limit := Nat.min_le_left limit (log.available + 1)
  available_le_length := by
    have withinLog := describes.available_le_length
    simp only [List.length_cons]
    omega

theorem pop (describes : Describes limit log machine) {newest : State} {older : List State}
    (past : machine.history.states = newest :: older) (state : State) :
    Describes limit { entries := log.entries.tail, available := log.available - 1 }
      { machine with state, history := ⟨older⟩ } where
  limit_eq := describes.limit_eq
  states_eq := by
    have taken : newest :: older = log.entries.take log.available := by
      rw [← past, describes.states_eq]
    calc
      older = (log.entries.take log.available).tail := by rw [← taken, List.tail_cons]
      _ = log.entries.tail.take (log.available - 1) := by
        rw [← List.drop_one, List.drop_take, List.drop_one]
  available_le_limit := Nat.le_trans (Nat.sub_le ..) describes.available_le_limit
  available_le_length := by
    rw [List.length_tail]
    exact Nat.sub_le_sub_right describes.available_le_length 1

/-- Every call keeps the history the available part of the log. -/
theorem performs (describes : Describes limit log machine) {call : Call} {reply : Reply}
    {after : Machine} (performed : machine.Performs call reply after) :
    Describes limit (log.note limit machine call reply) after := by
  cases performed with
  | executed fetched executed => exact describes.push _ _
  | rewound past => exact describes.pop past _
  | reset => exact .empty describes.limit_eq rfl
  | loaded fits => exact .empty describes.limit_eq rfl
  | loadedFrom fits => exact .empty describes.limit_eq rfl
  | faulted faulted => exact describes
  | exhausted past => exact describes
  | ignored down named => exact describes
  | upToDate pending => exact describes
  | tooLarge tooLarge => exact describes
  | refusedFrom => exact describes
  | ticked => exact describes.congr rfl rfl
  | held down named => exact describes.congr rfl rfl
  | taken pending => exact describes.congr rfl rfl
  | cleared => exact describes.congr rfl rfl

end Describes

theorem describes_ofRun (config : Config) (random : RandomSource) (calls : List Call) :
    Describes config.history (ofRun config random calls)
      ((Machine.new config random).performAll calls) := by
  refine Machine.invariant_observe (note config.history)
    (fun machine log => Describes config.history log machine) ?_ ?_ calls
  · intro before call reply after log describes performed
    exact describes.performs performed
  · exact .empty rfl rfl

end UndoLog

namespace Machine

theorem rewinds_of_append {machine : Machine} {newer older : List State} {state : State}
    (past : machine.history.states = newer ++ state :: older) :
    machine.performAll (List.replicate (newer.length + 1) .rewind) =
        { machine with state := { state with redraw := true }, history := ⟨older⟩ } ∧
      (machine.outcomes (List.replicate (newer.length + 1) .rewind)).map Outcome.value =
        List.replicate (newer.length + 1) (.rewound true) := by
  induction newer generalizing machine with
  | nil =>
      have rewound := perform_rewind_of_cons past
      constructor
      · simp only [List.length_nil, Nat.zero_add, List.replicate_one, performAll, List.foldl_cons,
          List.foldl_nil, rewound]
      · simp only [List.length_nil, Nat.zero_add, List.replicate_one, outcomes, rewound,
          List.map_cons, List.map_nil]
  | cons newest newer ih =>
      have rewound := perform_rewind_of_cons past
      have remaining : (machine.perform .rewind).machine.history.states =
          newer ++ state :: older := by
        rw [rewound, List.append_eq]
      obtain ⟨reached, replies⟩ := ih remaining
      constructor
      · calc
          machine.performAll (List.replicate ((newest :: newer).length + 1) .rewind) =
              (machine.perform .rewind).machine.performAll
                (List.replicate (newer.length + 1) .rewind) := rfl
          _ = { (machine.perform .rewind).machine with
                state := { state with redraw := true }, history := ⟨older⟩ } := reached
          _ = { machine with state := { state with redraw := true }, history := ⟨older⟩ } := by
            rw [rewound]
      · calc
          (machine.outcomes (List.replicate ((newest :: newer).length + 1) .rewind)).map
                Outcome.value =
              (machine.perform .rewind).value ::
                ((machine.perform .rewind).machine.outcomes
                  (List.replicate (newer.length + 1) .rewind)).map Outcome.value := rfl
          _ = .rewound true :: List.replicate (newer.length + 1) (.rewound true) := by
            rw [replies, rewound]
          _ = List.replicate ((newest :: newer).length + 1) (.rewound true) := rfl

/-- The history of a machine is the available part of its undo log, newest first, and
rewinding brings the entries back one after another. -/
theorem history_refines_undoLog (config : Config) (random : RandomSource) (calls : List Call) :
    let machine := (new config random).performAll calls
    let log := UndoLog.ofRun config random calls
    machine.history.states = log.entries.take log.available ∧
      machine.history.states.length = log.available ∧
      ((machine.perform .rewind).value = .rewound true ↔ 0 < log.available) ∧
      (0 < log.available ∨ machine.perform .rewind = ⟨.rewound false, machine, []⟩) ∧
      ∀ rank : Fin log.available, ∃ entry, log.entries[rank.val]? = some entry ∧
        (machine.performAll (List.replicate (rank + 1) .rewind)).state =
          { entry with redraw := true } ∧
        (machine.outcomes (List.replicate (rank + 1) .rewind)).map Outcome.value =
          List.replicate (rank + 1) (.rewound true) := by
  intro machine log
  have describes : log.Describes config.history machine :=
    UndoLog.describes_ofRun config random calls
  refine ⟨describes.states_eq, describes.length_states, ?_, ?_, ?_⟩
  · rw [← describes.length_states]
    cases past : machine.history.states with
    | nil => simp [perform_rewind_of_nil past]
    | cons newest older => simp [perform_rewind_of_cons past]
  · rw [← describes.length_states]
    cases past : machine.history.states with
    | nil => exact Or.inr (perform_rewind_of_nil past)
    | cons newest older => exact Or.inl (Nat.succ_pos older.length)
  · intro rank
    have inLog : rank.val < log.entries.length :=
      Nat.lt_of_lt_of_le rank.isLt describes.available_le_length
    have inHistory : rank.val < machine.history.states.length := by
      rw [describes.length_states]
      exact rank.isLt
    have found : machine.history.states[rank.val] = log.entries[rank.val] := by
      simp only [describes.states_eq, List.getElem_take]
    have split : machine.history.states = machine.history.states.take rank.val ++
        log.entries[rank.val] :: machine.history.states.drop (rank.val + 1) := by
      rw [← found, List.getElem_cons_drop, List.take_append_drop]
    have newer : (machine.history.states.take rank.val).length = rank.val := by
      rw [List.length_take]
      omega
    obtain ⟨reached, replies⟩ := rewinds_of_append split
    rw [newer] at reached replies
    exact ⟨log.entries[rank.val], List.getElem?_eq_getElem inLog, by rw [reached], replies⟩

end Machine

end ChipEight
