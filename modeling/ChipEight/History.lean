import ChipEight.State

/-!
# Rewind history

The states before the last instructions, newest first.  The history is bounded:
recording a state beyond the bound drops the oldest one.
-/

namespace ChipEight

structure History where
  states : List State

namespace History

def empty : History where
  states := []

/-- Record a state and keep at most `limit` states.  A full history drops its
oldest state first. -/
def record (history : History) (limit : Nat) (state : State) : History where
  states :=
    if limit = 0 then history.states
    else if history.states.length = limit then state :: history.states.dropLast
    else state :: history.states

/-- The newest state and the history before it, if there is one. -/
def undo? (history : History) : Option (State × History) :=
  match history.states with
  | [] => none
  | newest :: older => some (newest, ⟨older⟩)

/-- Recording in a history within its bound keeps the newest `limit` states. -/
theorem states_record {history : History} {limit : Nat} (state : State)
    (bounded : history.states.length ≤ limit) :
    (history.record limit state).states = (state :: history.states).take limit := by
  unfold record
  split
  · rename_i noRoom
    subst noRoom
    simpa using bounded
  · split
    · rename_i room full
      obtain ⟨below, rfl⟩ := Nat.exists_eq_succ_of_ne_zero room
      rw [List.take_succ_cons, List.dropLast_eq_take, full, Nat.succ_sub_one]
    · rw [List.take_of_length_le (by rw [List.length_cons]; omega)]

theorem exists_states_record (history : History) {limit : Nat} (room : 0 < limit)
    (state : State) : ∃ older, (history.record limit state).states = state :: older := by
  simp only [record, if_neg (Nat.ne_of_gt room)]
  split
  · exact ⟨_, rfl⟩
  · exact ⟨_, rfl⟩

theorem record_length_le {history : History} {limit : Nat} (state : State)
    (bounded : history.states.length ≤ limit) :
    (history.record limit state).states.length ≤ limit := by
  rw [states_record state bounded, List.length_take]
  omega

end History

end ChipEight
