import ChipEight.Proofs.Session.Delivery
import ChipEight.Proofs.Session.Turns

/-!
# Sessions on a host

A session on a host plays the turns that it would play anywhere, as far as the
host presents their pictures.  At the first picture that is not presented it
breaks off: the turn has done all else by then, and no other turn follows.
-/

namespace ChipEight

namespace Host

variable {host other : Host} {turns others : List Turn}

/-- The host presents every picture. -/
def Presents (host : Host) : Prop :=
  ∀ presented, host.renderFailure? presented = none

/-- Turns as far as the host presents their pictures. -/
def presentAll (host : Host) (presented : Nat) : List Turn → List Turn × Option WindowError
  | [] => ([], none)
  | turn :: turns =>
    match host.present presented turn.shown with
    | (shown, some error) => ([{ turn with shown }], some error)
    | (shown, none) =>
      let (later, error) := host.presentAll (presented + shown.length) turns
      (turn :: later, error)

theorem present_of_presents (presents : host.Presents) (presented : Nat) (pictures : List Frame) :
    host.present presented pictures = (pictures, none) := by
  induction pictures generalizing presented with
  | nil => rfl
  | cons picture pictures ih => simp only [present, presents presented, ih]

theorem presentAll_of_presents (presents : host.Presents) (presented : Nat) (turns : List Turn) :
    host.presentAll presented turns = (turns, none) := by
  induction turns generalizing presented with
  | nil => rfl
  | cons turn turns ih => simp only [presentAll, present_of_presents presents, ih]

theorem presentAll_congr (same : other.renderFailure? = host.renderFailure?) :
    other.presentAll = host.presentAll := by
  have presentEq : other.present = host.present := by
    funext presented pictures
    induction pictures generalizing presented with
    | nil => rfl
    | cons picture pictures ih => simp only [present, same, ih]
  funext presented turns
  induction turns generalizing presented with
  | nil => rfl
  | cons turn turns ih => simp only [presentAll, presentEq, ih]

/-- A host looks at the pictures only. -/
theorem map_shown_presentAll_congr (same : turns.map Turn.shown = others.map Turn.shown)
    (presented : Nat) :
    (host.presentAll presented turns).1.map Turn.shown =
      (host.presentAll presented others).1.map Turn.shown := by
  induction turns generalizing others presented with
  | nil =>
      rw [List.map_eq_nil_iff.mp same.symm]
  | cons turn turns ih =>
      cases others with
      | nil => cases same
      | cons other others =>
          obtain ⟨sameShown, sameRest⟩ := List.cons.inj same
          simp only [presentAll, sameShown]
          rcases host.present presented other.shown with ⟨shown, _ | error⟩
          · simp only [List.map_cons, sameShown, ih sameRest]
          · rfl

/-- Either all turns are presented, or there is one that breaks off. -/
theorem presentAll_eq_or (host : Host) (presented : Nat) (turns : List Turn) :
    host.presentAll presented turns = (turns, none) ∨
      ∃ earlier turn later shown error, turns = earlier ++ turn :: later ∧
        host.presentAll presented turns = (earlier ++ [{ turn with shown }], some error) := by
  induction turns generalizing presented with
  | nil => exact Or.inl rfl
  | cons turn turns ih =>
      simp only [presentAll]
      rcases host.present presented turn.shown with ⟨shown, _ | error⟩
      · obtain whole | ⟨earlier, last, later, cut, error, rfl, broken⟩ :=
          ih (presented + shown.length)
        · left
          simp only [whole]
        · right
          refine ⟨turn :: earlier, last, later, cut, error, rfl, ?_⟩
          simp only [broken, List.cons_append]
      · exact Or.inr ⟨[], turn, turns, shown, error, rfl, rfl⟩

end Host

namespace Session

variable {host : Host} {options : Options} {machine : Machine} {opening : Opening}

theorem playOn_eq (host : Host) (session : Session) (cycles presented : Nat)
    (script : List (List Event)) :
    session.playOn host cycles presented script =
      host.presentAll presented ((session.turns cycles script).map (·.outcome.turn)) := by
  induction script generalizing session presented with
  | nil => rfl
  | cons events script ih =>
      let turn : PlayedTurn := ⟨session, cycles, events⟩
      have outcomeEq : session.play cycles events = turn.outcome := rfl
      have afterEq : turn.outcome.session = turn.after := rfl
      simp only [playOn, turns, List.map_cons, Host.presentAll, outcomeEq, afterEq, ih]
      rcases host.present presented turn.outcome.turn.shown with ⟨shown, _ | error⟩
      · cases turn.outcome.continues <;> rfl
      · rfl

/-- The turns of a session on a host, before the host presents them. -/
def turnsOn (host : Host) (options : Options) (opening : Opening) (script : List (List Event)) :
    List PlayedTurn :=
  opening.session.turns options.cyclesPerTurn
    (host.events.deliver opening.queue (script ++ [[.closed]]))

/-- Running a session is opening it and playing its turns. -/
theorem run_eq (opened : launch host options machine = .ok opening)
    (script : List (List Event)) :
    let played := host.presentAll 0 ((turnsOn host options opening script).map (·.outcome.turn))
    run host options machine script =
      ⟨some opening.window, opening.session.speaker.device?, played.2,
        opening.turn :: played.1⟩ := by
  simp only [run, opened, playOn_eq, turnsOn]

/-- What a session tells its device on a host is what some of its turns tell it, or
all of them if it does not break off. -/
theorem tone_run (opened : launch host options machine = .ok opening)
    (script : List (List Event)) :
    let transcript := run host options machine script
    ∃ done later, turnsOn host options opening script = done ++ later ∧
      transcript.turns.flatMap (·.tone) =
        opening.turn.tone ++ done.flatMap (·.outcome.turn.tone) ∧
      (transcript.error = none → later = []) := by
  intro transcript
  have transcriptEq : transcript = _ := run_eq opened script
  rw [transcriptEq]
  rcases host.presentAll_eq_or 0 ((turnsOn host options opening script).map (·.outcome.turn))
    with whole | ⟨earlier, last, later, shown, error, split, broken⟩
  · refine ⟨turnsOn host options opening script, [], (List.append_nil _).symm, ?_, fun _ => rfl⟩
    simp only [whole, List.flatMap_cons, List.flatMap_map]
  · obtain ⟨done, rest, playedEq, rfl, restEq⟩ := List.map_eq_append_iff.mp split
    obtain ⟨turn, rest, rfl, rfl, rfl⟩ := List.map_eq_cons_iff.mp restEq
    refine ⟨done ++ [turn], rest, ?_, ?_, ?_⟩
    · rw [playedEq, List.append_assoc]
      rfl
    · simp only [broken, List.flatMap_cons, List.flatMap_append, List.flatMap_map,
        List.flatMap_nil, List.append_nil]
    · rw [broken]
      intro unbroken
      cases unbroken

end Session

end ChipEight
