import ChipEight.Proofs.Session.Rendering
import ChipEight.Proofs.Session.ShownPicture

/-!
# Sessions with another speaker

Nothing in a session depends on its speaker.  With another speaker a turn tells
the device other signals, and is the same in all else.
-/

namespace ChipEight

namespace Session

def withSpeaker (session : Session) (speaker : Speaker) : Session :=
  { session with speaker }

theorem receive?_withSpeaker (session : Session) (speaker : Speaker) (event : Event) :
    (session.withSpeaker speaker).receive? event =
      (session.receive? event).map (·.withSpeaker speaker) := by
  cases event with
  | keyDown host =>
      rcases mapped : host.bind Keymap.input? with _ | (key | _ | _ | _)
      all_goals
        simp only [receive?, mapped]
        rfl
  | keyUp host =>
      rcases mapped : host.bind Keymap.input? with _ | (key | _ | _ | _)
      all_goals
        simp only [receive?, mapped]
        rfl
  | closed => rfl
  | other => rfl

theorem receiveAll_withSpeaker (session : Session) (speaker : Speaker) (events : List Event) :
    (session.withSpeaker speaker).receiveAll events =
      ((session.receiveAll events).1.withSpeaker speaker, (session.receiveAll events).2) := by
  induction events generalizing session with
  | nil => rfl
  | cons event events ih =>
      simp only [receiveAll, receive?_withSpeaker]
      cases session.receive? event with
      | none => rfl
      | some received => exact ih received

theorem update_withSpeaker (session : Session) (speaker : Speaker) (cycles : Nat) :
    (session.withSpeaker speaker).update cycles =
      ((session.update cycles).1.withSpeaker speaker, (session.update cycles).2) := by
  obtain ⟨machine, other, fastForward, rewinding, halted⟩ := session
  cases rewinding with
  | true => rfl
  | false =>
      cases halted with
      | true => rfl
      | false => rfl

def toneWanted (session : Session) (cycles : Nat) (events : List Event) : Bool :=
  (session.receiveAll events).2 &&
    ((session.receiveAll events).1.update cycles).1.toneActive

/-- The speaker of a session settles what is told to the device, and nothing
else in the turn. -/
theorem play_withSpeaker (session : Session) (speaker : Speaker) (cycles : Nat)
    (events : List Event) :
    let outcome := session.play cycles events
    let told := speaker.setActive (session.toneWanted cycles events)
    (session.withSpeaker speaker).play cycles events =
      ⟨{ outcome.turn with tone := told.2 }, outcome.session.withSpeaker told.1,
        outcome.continues⟩ := by
  rcases taken : session.receiveAll events with ⟨received, continues⟩
  cases continues with
  | false =>
      simp only [play, toneWanted, receiveAll_withSpeaker, taken, Bool.false_and]
      rfl
  | true =>
      simp only [play, toneWanted, receiveAll_withSpeaker, taken, update_withSpeaker,
        Bool.true_and]
      rfl

end Session

namespace PlayedTurn

/-- What a turn does apart from the tone. -/
structure View where
  before : Machine
  after : Machine
  shown : List Frame
  log : List Notice
  continues : Bool

def view (turn : PlayedTurn) : View where
  before := turn.before.machine
  after := turn.after.machine
  shown := turn.outcome.turn.shown
  log := turn.outcome.turn.log
  continues := turn.outcome.continues

end PlayedTurn

namespace Session

theorem view_withSpeaker (session : Session) (speaker : Speaker) (cycles : Nat)
    {events others : List Event} (same : noticed events = noticed others) :
    let told : PlayedTurn := ⟨session.withSpeaker speaker, cycles, events⟩
    let turn : PlayedTurn := ⟨session, cycles, others⟩
    told.view = turn.view ∧ ∃ speaker, told.after = turn.after.withSpeaker speaker := by
  intro told turn
  have outcomeEq : told.outcome = _ := session.play_withSpeaker speaker cycles events
  rw [session.play_congr cycles same] at outcomeEq
  constructor
  · simp only [PlayedTurn.view, PlayedTurn.after, outcomeEq]
    rfl
  · refine ⟨(speaker.setActive (session.toneWanted cycles events)).1, ?_⟩
    rw [PlayedTurn.after, outcomeEq]
    rfl

/-- Turns that receive the same events are the same apart from the tone, whatever
the speaker. -/
theorem view_turns_withSpeaker (session : Session) (speaker : Speaker) (cycles : Nat)
    {first second : List (List Event)} (same : first.map noticed = second.map noticed) :
    ((session.withSpeaker speaker).turns cycles first).map PlayedTurn.view =
      (session.turns cycles second).map PlayedTurn.view := by
  induction first generalizing session speaker second with
  | nil =>
      rw [List.map_eq_nil_iff.mp same.symm]
      rfl
  | cons events first ih =>
      cases second with
      | nil => cases same
      | cons others second =>
          obtain ⟨sameEvents, sameRest⟩ := List.cons.inj same
          obtain ⟨viewEq, told, afterEq⟩ :=
            session.view_withSpeaker speaker cycles sameEvents
          have continuesEq := congrArg PlayedTurn.View.continues viewEq
          simp only [PlayedTurn.view] at continuesEq
          simp only [turns, List.map_cons, viewEq, continuesEq]
          split
          · rw [afterEq, ih _ told sameRest]
          · rfl

end Session

namespace Session

variable {host : Host} {options : Options} {machine : Machine} {opening : Opening}

def openIn (host : Host) (options : Options) (machine : Machine) (window : Window) : Opening where
  window := window
  session := { machine, speaker := (Speaker.openOn host options).1 }
  queue := host.events.opening (Speaker.openOn host options).1.device?.isSome
  turn := {
    shown := [.blank]
    log := .windowOpened window.width window.height :: (Speaker.openOn host options).2 }

theorem launch_eq_ok_iff : launch host options machine = .ok opening ↔
    ∃ window, Window.openOn host options = .ok window ∧
      openIn host options machine window = opening := by
  cases found : Window.openOn host options with
  | error error => simp [launch, found]
  | ok window => simp [launch, found, openIn]

theorem exists_opening_of_launch (opened : launch host options machine = .ok opening) :
    ∃ audio, opening.queue = host.events.opening audio := by
  obtain ⟨window, -, rfl⟩ := launch_eq_ok_iff.mp opened
  exact ⟨_, rfl⟩

/-- Without or with other audio the same session opens, up to its speaker. -/
theorem exists_launch (opened : launch host options machine = .ok opening)
    (missingAudio : Option String) (muted : Bool) :
    ∃ other, launch { host with missingAudio } { options with muted } machine = .ok other ∧
      other.session = opening.session.withSpeaker other.session.speaker ∧
      other.turn.shown = opening.turn.shown := by
  obtain ⟨window, found, rfl⟩ := launch_eq_ok_iff.mp opened
  have sameWindow : Window.openOn { host with missingAudio } { options with muted } =
      .ok window := found
  exact ⟨_, launch_eq_ok_iff.mpr ⟨window, sameWindow, rfl⟩, rfl, rfl⟩

/-- On a host that delivers the same with an audio device and without, the speaker
makes no difference to the pictures of a session. -/
theorem shown_run_of_launch {missingAudio : Option String} {muted : Bool} {other : Opening}
    (opened : launch host options machine = .ok opening)
    (otherwise : launch { host with missingAudio } { options with muted } machine = .ok other)
    (sameSession : other.session = opening.session.withSpeaker other.session.speaker)
    (sameShown : other.turn.shown = opening.turn.shown) {script : List (List Event)}
    (unmoved : host.events.UnmovedByAudio (script ++ [[.closed]])) :
    (run { host with missingAudio } { options with muted } machine script).turns.map Turn.shown =
      (run host options machine script).turns.map Turn.shown := by
  obtain ⟨audio, queueEq⟩ := exists_opening_of_launch opened
  obtain ⟨otherAudio, otherQueueEq⟩ := exists_opening_of_launch otherwise
  have sameEvents : (host.events.deliver other.queue (script ++ [[.closed]])).map noticed =
      (host.events.deliver opening.queue (script ++ [[.closed]])).map noticed := by
    rw [queueEq, otherQueueEq]
    exact unmoved otherAudio audio
  have sameViews := opening.session.view_turns_withSpeaker other.session.speaker
    options.cyclesPerTurn sameEvents
  rw [← sameSession] at sameViews
  have samePictures :
      ((turnsOn { host with missingAudio } { options with muted } other script).map
        (·.outcome.turn)).map Turn.shown =
      ((turnsOn host options opening script).map (·.outcome.turn)).map Turn.shown := by
    have shownEq := congrArg (List.map PlayedTurn.View.shown) sameViews
    rw [List.map_map, List.map_map] at shownEq ⊢
    exact shownEq
  have presentEq : ({ host with missingAudio } : Host).presentAll = host.presentAll :=
    Host.presentAll_congr rfl
  rw [run_eq opened, run_eq otherwise, presentEq, List.map_cons, List.map_cons, sameShown]
  exact congrArg _ (Host.map_shown_presentAll_congr samePictures 0)

end Session

end ChipEight
