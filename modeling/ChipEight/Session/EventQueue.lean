import ChipEight.Keymap

/-!
# Event queues

Events reach a session through a queue of its host, into which a turn looks
until the host says that nothing waits any more.  How the host tells is up to
the host, so the events that a turn takes are a function of those that waited
and of those that arrive during the turn.

Two such sources are given.  One lets a turn take all that has arrived.  The
other is polled: at the first look of a turn it sets a mark behind the events
that wait, and just before every look one more event arrives.  A session with a
polled source finds that its window was shown, and that an audio device was found
for playing and one for recording.
-/

namespace ChipEight

/-- What happens to the window of a session. -/
inductive Event where
  /-- A key goes down.  Some events come without a key. -/
  | keyDown (key : Option HostKey)
  | keyUp (key : Option HostKey)
  | closed
  | other
  deriving DecidableEq, Repr

/-- The events that wait for the next turn, oldest first. -/
structure EventQueue where
  waiting : List Event
  deriving DecidableEq, Repr

/-- How a host hands events to a session. -/
structure EventSource where
  /-- What waits when a session opens, with an audio device or without. -/
  opening : Bool → EventQueue
  /-- The events that a turn takes if the given ones arrive during it, and the
  queue it leaves. -/
  take : EventQueue → List Event → List Event × EventQueue

namespace EventSource

/-- The events that successive turns take, when the given events arrive during
each of them. -/
def deliver (source : EventSource) (queue : EventQueue) : List (List Event) → List (List Event)
  | [] => []
  | arriving :: later =>
    let (taken, rest) := source.take queue arriving
    taken :: source.deliver rest later

/-- Every turn takes all events that have arrived. -/
def prompt : EventSource where
  opening _ := ⟨[]⟩
  take queue arriving := (queue.waiting ++ arriving, ⟨[]⟩)

/-- Every turn looks once for every event that it takes and once for the mark.  So as
many events arrive behind the mark as were waiting, and one more.  Those that have
not arrived by then are lost. -/
def polled : EventSource where
  opening audio := ⟨.other :: if audio then [.other, .other] else []⟩
  take queue arriving :=
    (queue.waiting ++ arriving.take 1, ⟨(arriving.drop 1).take (queue.waiting.length + 1)⟩)

end EventSource

end ChipEight
