import ChipEight.Session.Turn

/-!
# What reaches a session

A host may hand over events late or never, and puts events of its own into the
queue, of which no session takes notice.  What a result asks of the delivery is
named here, and the sources that are given do what is asked.
-/

namespace ChipEight

namespace Session

/-- Leave out the events that a session takes no notice of. -/
def noticed (events : List Event) : List Event :=
  events.filter (· ≠ .other)

theorem noticed_append (first second : List Event) :
    noticed (first ++ second) = noticed first ++ noticed second :=
  List.filter_append ..

theorem receiveAll_noticed (session : Session) (events : List Event) :
    session.receiveAll (noticed events) = session.receiveAll events := by
  induction events generalizing session with
  | nil => rfl
  | cons event events ih =>
      by_cases other : event = .other
      · rw [other]
        exact ih session
      · have kept : noticed (event :: events) = event :: noticed events :=
          List.filter_cons_of_pos (decide_eq_true other)
        rw [kept]
        simp only [receiveAll]
        cases session.receive? event with
        | none => rfl
        | some received => exact ih received

theorem play_congr (session : Session) (cycles : Nat) {first second : List Event}
    (same : noticed first = noticed second) :
    session.play cycles first = session.play cycles second := by
  have receivedEq : session.receiveAll first = session.receiveAll second := by
    rw [← session.receiveAll_noticed first, same, session.receiveAll_noticed second]
  simp only [play, receivedEq]

end Session

namespace EventSource

open Session

/-- The first event that arrives during a turn is taken in that turn. -/
def Timely (source : EventSource) : Prop :=
  ∀ (queue : EventQueue) (event : Event) (later : List Event),
    event ∈ (source.take queue (event :: later)).1

/-- The events of a script that sessions notice reach the same turns with an audio
device and without. -/
def UnmovedByAudio (source : EventSource) (script : List (List Event)) : Prop :=
  ∀ audio other : Bool,
    (source.deliver (source.opening audio) script).map noticed =
      (source.deliver (source.opening other) script).map noticed

/-- Events that arrive one in a turn are taken in the turns during which they
arrive. -/
def KeepsUp (source : EventSource) : Prop :=
  ∀ (audio : Bool) {script : List (List Event)}, (∀ arriving ∈ script, arriving.length ≤ 1) →
    (source.deliver (source.opening audio) script).map noticed = script.map noticed

theorem Timely.exists_mem_deliver {source : EventSource} (timely : source.Timely)
    (queue : EventQueue) (script : List (List Event)) (event : Event) :
    ∃ events ∈ source.deliver queue (script ++ [[event]]), event ∈ events := by
  induction script generalizing queue with
  | nil => exact ⟨_, List.mem_singleton_self _, timely queue event []⟩
  | cons arriving script ih =>
      obtain ⟨events, member, taken⟩ := ih (source.take queue arriving).2
      exact ⟨events, List.mem_cons_of_mem _ member, taken⟩

namespace prompt

theorem deliver_eq (script : List (List Event)) : prompt.deliver ⟨[]⟩ script = script := by
  induction script with
  | nil => rfl
  | cons arriving script ih => exact congrArg (arriving :: ·) ih

theorem timely : prompt.Timely := by
  intro queue event later
  exact List.mem_append_right _ List.mem_cons_self

theorem keepsUp : prompt.KeepsUp := by
  intro audio script _
  exact congrArg (List.map noticed) (deliver_eq script)

end prompt

namespace polled

theorem timely : polled.Timely := by
  intro queue event later
  exact List.mem_append_right _ List.mem_cons_self

variable {queue other : EventQueue} {arriving : List Event}

/-- With room behind the mark, no event is lost. -/
theorem take_of_length_le (room : arriving.length ≤ queue.waiting.length + 2) :
    polled.take queue arriving = (queue.waiting ++ arriving.take 1, ⟨arriving.drop 1⟩) := by
  have short : (arriving.drop 1).length ≤ queue.waiting.length + 1 := by
    rw [List.length_drop]
    omega
  simp only [polled, List.take_of_length_le short]

/-- What is not noticed makes no difference if no event is lost in the first turn. -/
theorem map_noticed_deliver_cons (unnoticed : noticed queue.waiting = [])
    (room : arriving.length ≤ queue.waiting.length + 2) (later : List (List Event)) :
    (polled.deliver queue (arriving :: later)).map noticed =
      noticed (arriving.take 1) :: (polled.deliver ⟨arriving.drop 1⟩ later).map noticed := by
  simp only [deliver, take_of_length_le room, List.map_cons, noticed_append, unnoticed,
    List.nil_append]

theorem noticed_opening (audio : Bool) : noticed (polled.opening audio).waiting = [] := by
  cases audio <;> rfl

theorem length_opening (audio : Bool) : 1 ≤ (polled.opening audio).waiting.length := by
  cases audio <;> decide

theorem unmovedByAudio {script : List (List Event)}
    (few : ∀ arriving, script.head? = some arriving → arriving.length ≤ 3) :
    polled.UnmovedByAudio script := by
  intro audio other
  cases script with
  | nil => rfl
  | cons arriving later =>
      have short := few arriving rfl
      have room (audio : Bool) :
          arriving.length ≤ (polled.opening audio).waiting.length + 2 := by
        have waiting := length_opening audio
        omega
      rw [map_noticed_deliver_cons (noticed_opening audio) (room audio),
        map_noticed_deliver_cons (noticed_opening other) (room other)]

theorem map_noticed_deliver (unnoticed : noticed queue.waiting = []) {script : List (List Event)}
    (single : ∀ arriving ∈ script, arriving.length ≤ 1) :
    (polled.deliver queue script).map noticed = script.map noticed := by
  induction script generalizing queue with
  | nil => rfl
  | cons arriving script ih =>
      have short : arriving.length ≤ 1 := single arriving List.mem_cons_self
      have room : arriving.length ≤ queue.waiting.length + 2 := by omega
      have emptied : noticed (EventQueue.mk []).waiting = [] := rfl
      rw [map_noticed_deliver_cons unnoticed room, List.drop_of_length_le short,
        List.take_of_length_le short, List.map_cons,
        ih emptied fun later member => single later (List.mem_cons_of_mem _ member)]

theorem keepsUp : polled.KeepsUp := by
  intro audio script single
  exact map_noticed_deliver (noticed_opening audio) single

end polled

end EventSource

end ChipEight
