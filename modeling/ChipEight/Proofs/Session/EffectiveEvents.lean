import ChipEight.Proofs.Session.OtherSpeaker

/-!
# Events with an effect

A session is settled by those of its events that move a key of the keypad, begin
or end rewinding, or end the session, and by the turns in which they come.  All
other events change at most how long the host waits for the next turn.  Of the
events that end a session only the first is taken, and it does not matter which
of them it is.
-/

namespace ChipEight

/-- Whether an event moves a key of the keypad, begins or ends rewinding, or ends
the session. -/
def Event.matters : Event → Bool
  | .keyDown host =>
    match host.bind Keymap.input? with
    | some (.key _) | some .rewind | some .quit => true
    | some .fastForward | none => false
  | .keyUp host =>
    match host.bind Keymap.input? with
    | some (.key _) | some .rewind => true
    | some .quit | some .fastForward | none => false
  | .closed => true
  | .other => false

namespace Session

/-- The events of one turn that matter, up to the first that ends the session. -/
def essential : List Event → List Event
  | [] => []
  | event :: events =>
    if event.ends then
      [event]
    else if event.matters then
      event :: essential events
    else
      essential events

/-- The events of successive turns that matter, up to the first that ends the
session.  No turn is left out. -/
def effective : List (List Event) → List (List Event)
  | [] => []
  | events :: script =>
    essential events :: if events.any Event.ends then script.map fun _ => [] else effective script

/-- The session with the next turn waiting as usual. -/
def unhurried (session : Session) : Session :=
  { session with fastForward := false }

variable {first second session : Session} {event : Event} {events others : List Event}

theorem exists_of_unhurried (same : first.unhurried = second.unhurried) :
    ∃ fastForward, second = { first with fastForward } := by
  obtain ⟨machine, speaker, fastForward, rewinding, halted⟩ := first
  obtain ⟨machine', speaker', fastForward', rewinding', halted'⟩ := second
  simp only [unhurried, mk.injEq] at same
  obtain ⟨rfl, rfl, -, rfl, rfl⟩ := same
  exact ⟨fastForward', rfl⟩

theorem receive?_of_ends (ends : event.ends = true) : session.receive? event = none := by
  cases event with
  | keyDown host =>
      have mapped : host.bind Keymap.input? = some .quit := eq_of_beq ends
      simp only [receive?, mapped]
  | closed => rfl
  | keyUp | other => cases ends

/-- An event that does not matter changes at most how long the host waits. -/
theorem exists_receive?_of_idle (session : Session) (idle : event.matters = false) :
    ∃ received, session.receive? event = some received ∧
      received.unhurried = session.unhurried := by
  cases event with
  | keyDown host =>
      rcases mapped : host.bind Keymap.input? with _ | (key | _ | _ | _)
      case none => exact ⟨session, by simp only [receive?, mapped], rfl⟩
      case some.fastForward =>
        exact ⟨{ session with fastForward := true }, by simp only [receive?, mapped], rfl⟩
      all_goals simp [Event.matters, mapped] at idle
  | keyUp host =>
      rcases mapped : host.bind Keymap.input? with _ | (key | _ | _ | _)
      case none => exact ⟨session, by simp only [receive?, mapped], rfl⟩
      case some.quit => exact ⟨session, by simp only [receive?, mapped], rfl⟩
      case some.fastForward =>
        exact ⟨{ session with fastForward := false }, by simp only [receive?, mapped], rfl⟩
      all_goals simp [Event.matters, mapped] at idle
  | closed => cases idle
  | other => exact ⟨session, rfl, rfl⟩

theorem receive?_unhurried (same : first.unhurried = second.unhurried) (event : Event) :
    (first.receive? event).map unhurried = (second.receive? event).map unhurried := by
  obtain ⟨fastForward, rfl⟩ := exists_of_unhurried same
  cases event with
  | keyDown host | keyUp host =>
      rcases mapped : host.bind Keymap.input? with _ | (key | _ | _ | _)
      all_goals simp [receive?, mapped, unhurried]
  | closed | other => rfl

/-- The essential events of a turn leave what all of its events leave, up to the
pace. -/
theorem receiveAll_essential (same : first.unhurried = second.unhurried) (events : List Event) :
    (first.receiveAll (essential events)).1.unhurried =
        (second.receiveAll events).1.unhurried ∧
      (first.receiveAll (essential events)).2 = (second.receiveAll events).2 := by
  fun_induction essential events generalizing first second with
  | case1 => exact ⟨same, rfl⟩
  | case2 event events ends =>
      simp only [receiveAll, receive?_of_ends ends]
      exact ⟨same, trivial⟩
  | case3 event events goesOn matters ih =>
      have alike := receive?_unhurried same event
      simp only [receiveAll]
      cases firstTook : first.receive? event with
      | none => exact absurd (ends_of_receive?_eq_none firstTook) goesOn
      | some firstReceived =>
          cases secondTook : second.receive? event with
          | none => exact absurd (ends_of_receive?_eq_none secondTook) goesOn
          | some secondReceived =>
              rw [firstTook, secondTook] at alike
              exact ih (Option.some.inj alike)
  | case4 event events goesOn idle ih =>
      obtain ⟨received, took, unchanged⟩ :=
        second.exists_receive?_of_idle (Bool.eq_false_iff.mpr idle)
      simp only [receiveAll, took]
      exact ih (same.trans unchanged.symm)

/-- What a turn does depends on what its events leave, up to the pace. -/
theorem play_unhurried (cycles : Nat)
    (same : (first.receiveAll events).1.unhurried = (second.receiveAll others).1.unhurried)
    (goesOn : (first.receiveAll events).2 = (second.receiveAll others).2) :
    (first.play cycles events).turn = (second.play cycles others).turn ∧
      (first.play cycles events).session.unhurried =
        (second.play cycles others).session.unhurried ∧
      (first.play cycles events).continues = (second.play cycles others).continues := by
  rcases taken : first.receiveAll events with ⟨received, continues⟩
  rcases takenToo : second.receiveAll others with ⟨receivedToo, continuesToo⟩
  rw [taken, takenToo] at same goesOn
  simp only [play, taken, takenToo]
  obtain ⟨fastForward, rfl⟩ := exists_of_unhurried same
  cases goesOn
  cases continues with
  | false => exact ⟨rfl, rfl, rfl⟩
  | true =>
      obtain ⟨machine, speaker, pace, rewinding, halted⟩ := received
      cases rewinding with
      | true => exact ⟨rfl, rfl, rfl⟩
      | false =>
          cases halted with
          | true => exact ⟨rfl, rfl, rfl⟩
          | false => exact ⟨rfl, rfl, rfl⟩

theorem call?_of_idle (idle : event.matters = false) : event.call? = none := by
  cases event with
  | keyDown host | keyUp host =>
      rcases mapped : host.bind Keymap.input? with _ | (key | _ | _ | _)
      case some.key => simp [Event.matters, mapped] at idle
      all_goals simp [Event.call?, Event.keyChange?, mapped]
  | closed | other => rfl

theorem heard_cons (event : Event) (events : List Event) :
    heard (event :: events) = if event.ends then [] else event :: heard events := by
  rw [heard, List.takeWhile_cons]
  cases event.ends <;> rfl

theorem filterMap_call?_essential (events : List Event) :
    (heard (essential events)).filterMap Event.call? =
      (heard events).filterMap Event.call? := by
  fun_induction essential events with
  | case1 => rfl
  | case2 event events ends => rw [heard_cons, heard_cons, if_pos ends, if_pos ends]
  | case3 event events goesOn matters ih =>
      rw [heard_cons, heard_cons, if_neg goesOn, if_neg goesOn, List.filterMap_cons,
        List.filterMap_cons, ih]
  | case4 event events goesOn idle ih =>
      have uncalled := call?_of_idle (Bool.eq_false_iff.mpr idle)
      rw [heard_cons, if_neg goesOn, List.filterMap_cons_none uncalled, ih]

theorem any_ends_essential (events : List Event) :
    (essential events).any Event.ends = events.any Event.ends := by
  fun_induction essential events with
  | case1 => rfl
  | case2 event events ends => simp only [List.any_cons, ends, Bool.true_or]
  | case3 event events goesOn matters ih => rw [List.any_cons, List.any_cons, ih]
  | case4 event events goesOn idle ih =>
      rw [List.any_cons, Bool.eq_false_iff.mpr goesOn, Bool.false_or, ih]

theorem essential_sublist (events : List Event) : (essential events).Sublist events := by
  fun_induction essential events with
  | case1 => exact .slnil
  | case2 event events ends => exact (List.nil_sublist events).cons_cons event
  | case3 event events goesOn matters ih => exact ih.cons_cons event
  | case4 event events goesOn idle ih => exact ih.cons event

theorem essential_essential (events : List Event) :
    essential (essential events) = essential events := by
  fun_induction essential events with
  | case1 => rfl
  | case2 event events ends => rw [essential, if_pos ends]
  | case3 event events goesOn matters ih => rw [essential, if_neg goesOn, if_pos matters, ih]
  | case4 event events goesOn idle ih => exact ih

/-- What comes after a script can be appended before or after leaving out the
events that do not matter. -/
theorem effective_append (script closing : List (List Event)) :
    effective (effective script ++ closing) = effective (script ++ closing) := by
  induction script with
  | nil => rfl
  | cons events script ih =>
      rw [effective, List.cons_append, List.cons_append, effective, effective,
        essential_essential, any_ends_essential]
      split
      · rw [List.map_append, List.map_append, List.map_map]
        rfl
      · rw [ih]

theorem length_le_of_mem_effective {script : List (List Event)} {limit : Nat}
    (short : ∀ arriving ∈ script, arriving.length ≤ limit) {events : List Event}
    (member : events ∈ effective script) : events.length ≤ limit := by
  induction script with
  | nil => cases member
  | cons arriving script ih =>
      obtain ⟨shortFirst, shortRest⟩ := List.forall_mem_cons.mp short
      rw [effective] at member
      rcases List.mem_cons.mp member with rfl | later
      · exact Nat.le_trans (essential_sublist arriving).length_le shortFirst
      · split at later
        · obtain ⟨-, -, rfl⟩ := List.mem_map.mp later
          exact Nat.zero_le limit
        · exact ih shortRest later

end Session

namespace PlayedTurn

/-- What happens in a turn, and in which session up to the pace. -/
@[ext]
structure Account where
  before : Session
  exchanges : List Exchange
  turn : Turn
  after : Session
  continues : Bool

def account (turn : PlayedTurn) : Account where
  before := turn.before.unhurried
  exchanges := turn.exchanges
  turn := turn.outcome.turn
  after := turn.after.unhurried
  continues := turn.outcome.continues

theorem ownCalls_unhurried {turn other : PlayedTurn} (cycles : turn.cycles = other.cycles)
    (continues : turn.outcome.continues = other.outcome.continues)
    (received : turn.received.unhurried = other.received.unhurried) :
    turn.ownCalls = other.ownCalls := by
  have updateCallsEq : ∀ session : Session,
      session.unhurried.updateCalls = session.updateCalls := fun _ => rfl
  rw [ownCalls, ownCalls, cycles, continues, ← updateCallsEq turn.received, received,
    updateCallsEq]

/-- What happens in a turn depends on what its events leave, up to the pace, and
on the keys that they move. -/
theorem account_unhurried {turn other : PlayedTurn} (cycles : turn.cycles = other.cycles)
    (before : turn.before.unhurried = other.before.unhurried)
    (keyCallsEq : turn.keyCalls = other.keyCalls)
    (received : turn.received.unhurried = other.received.unhurried)
    (goesOn : (turn.before.receiveAll turn.events).2 =
      (other.before.receiveAll other.events).2) :
    turn.account = other.account := by
  have played := Session.play_unhurried turn.cycles received goesOn
  rw [show other.before.play turn.cycles other.events = other.outcome by rw [cycles]; rfl] at played
  obtain ⟨turnEq, afterEq, continues⟩ := played
  have machineEq : turn.before.unhurried.machine = other.before.unhurried.machine := by
    rw [before]
  ext1
  · exact before
  · show turn.before.unhurried.machine.exchanges turn.calls =
      other.before.unhurried.machine.exchanges other.calls
    rw [machineEq, calls_eq, calls_eq, keyCallsEq, ownCalls_unhurried cycles continues received]
  · exact turnEq
  · exact afterEq
  · exact continues

open Session in
theorem account_essential {first second : Session} (same : first.unhurried = second.unhurried)
    (cycles : Nat) (events : List Event) :
    account ⟨first, cycles, essential events⟩ = account ⟨second, cycles, events⟩ := by
  obtain ⟨received, goesOn⟩ := receiveAll_essential same events
  apply account_unhurried
  · rfl
  · exact same
  · exact filterMap_call?_essential events
  · exact received
  · exact goesOn

end PlayedTurn

namespace Session

open PlayedTurn

variable {first second session : Session} {cycles : Nat}

/-- Two sessions play the same turns if the first is the same and the others are
the same in case that it goes on. -/
theorem map_account_cons {events others : List Event} {script rest : List (List Event)}
    (same : account ⟨first, cycles, events⟩ = account ⟨second, cycles, others⟩)
    (later : (second.play cycles others).continues = true →
      ((first.play cycles events).session.turns cycles script).map account =
        ((second.play cycles others).session.turns cycles rest).map account) :
    (first.turns cycles (events :: script)).map account =
      (second.turns cycles (others :: rest)).map account := by
  have continuesEq : (first.play cycles events).continues =
      (second.play cycles others).continues := congrArg Account.continues same
  show account ⟨first, cycles, events⟩ :: (if (first.play cycles events).continues then
      (first.play cycles events).session.turns cycles script else []).map account =
    account ⟨second, cycles, others⟩ :: (if (second.play cycles others).continues then
      (second.play cycles others).session.turns cycles rest else []).map account
  rw [same, continuesEq]
  split
  · rename_i continues
    rw [later continues]
  · rfl

theorem map_account_effective (same : first.unhurried = second.unhurried) (cycles : Nat)
    (script : List (List Event)) :
    (first.turns cycles (effective script)).map account =
      (second.turns cycles script).map account := by
  induction script generalizing first second with
  | nil => rfl
  | cons events script ih =>
      have accountEq := account_essential same cycles events
      rw [effective]
      apply map_account_cons accountEq
      intro continues
      have unended : events.any Event.ends = !true :=
        continues ▸ any_ends_eq ⟨second, cycles, events⟩
      rw [if_neg (Bool.eq_false_iff.mp unended)]
      exact ih (congrArg Account.after accountEq)

end Session

namespace PlayedTurn

/-- The turn in which a session ends passes keys on and does nothing else with
its machine. -/
theorem leaving_turn {turn : PlayedTurn} (ended : turn.outcome.continues = false) :
    turn.outcome.turn.shown = [] ∧ turn.outcome.turn.log = [] ∧
      (∀ exchange ∈ turn.exchanges, ∃ byte down, exchange.call = .setKey byte down) ∧
      ∃ keypad, turn.after.machine =
        { turn.before.machine with
          state := { turn.before.machine.state with keypad } } := by
  have callsEq : turn.calls = turn.keyCalls := by
    rw [calls_eq, ownCalls, ended, if_neg Bool.false_ne_true, List.append_nil]
  have keys : ∀ exchange ∈ turn.exchanges, ∃ byte down, exchange.call = .setKey byte down := by
    intro exchange member
    have called := Machine.call_mem_of_mem_exchanges member
    rw [callsEq] at called
    exact key_of_mem_keyCalls called
  have goesOn : (turn.before.receiveAll turn.events).2 = false := by
    rw [← continues_eq, ended]
  obtain ⟨-, -, logEq, shownEq, -⟩ := Session.play_of_ended turn.cycles goesOn
  refine ⟨shownEq, logEq, keys, ?_⟩
  rw [machine_after]
  apply Machine.invariant_exchanges (fun later => ∃ keypad, later =
    { turn.before.machine with state := { turn.before.machine.state with keypad } })
  · rintro ⟨before, call⟩ member ⟨keypad, rfl⟩
    obtain ⟨byte, down, rfl⟩ := keys _ member
    simp only [Exchange.after, Exchange.outcome, Machine.perform, Machine.setKey]
    cases Key.ofByte? byte with
    | none => exact ⟨keypad, rfl⟩
    | some key => exact ⟨keypad.set key down, rfl⟩
  · exact ⟨turn.before.machine.state.keypad, rfl⟩

end PlayedTurn

namespace Session

open PlayedTurn

variable {leaving replacing : Event}

theorem receiveAll_leaving (session : Session) (ends : leaving.ends = true)
    (endsToo : replacing.ends = true) (before after : List Event) :
    session.receiveAll (before ++ replacing :: after) =
      session.receiveAll (before ++ leaving :: after) := by
  induction before generalizing session with
  | nil => simp only [List.nil_append, receiveAll, receive?_of_ends ends, receive?_of_ends endsToo]
  | cons event before ih =>
      simp only [List.cons_append, receiveAll]
      cases session.receive? event with
      | none => rfl
      | some received => exact ih received

theorem heard_leaving (ends : leaving.ends = true) (endsToo : replacing.ends = true)
    (before after : List Event) :
    heard (before ++ replacing :: after) = heard (before ++ leaving :: after) := by
  induction before with
  | nil =>
      rw [List.nil_append, List.nil_append, heard_cons, heard_cons, if_pos ends, if_pos endsToo]
  | cons event before ih =>
      rw [List.cons_append, List.cons_append, heard_cons, heard_cons, ih]

/-- It does not matter which event ends a session. -/
theorem map_account_leaving (session : Session) (cycles : Nat) (ends : leaving.ends = true)
    (endsToo : replacing.ends = true) (earlier : List (List Event)) (before after : List Event)
    (later : List (List Event)) :
    (session.turns cycles (earlier ++ (before ++ replacing :: after) :: later)).map account =
      (session.turns cycles (earlier ++ (before ++ leaving :: after) :: later)).map account := by
  induction earlier generalizing session with
  | nil =>
      let turn : PlayedTurn := ⟨session, cycles, before ++ leaving :: after⟩
      let replaced : PlayedTurn := ⟨session, cycles, before ++ replacing :: after⟩
      have received := session.receiveAll_leaving ends endsToo before after
      have accountEq : replaced.account = turn.account := by
        apply account_unhurried
        · rfl
        · rfl
        · exact congrArg (List.filterMap Event.call?) (heard_leaving ends endsToo before after)
        · exact congrArg (·.1.unhurried) received
        · exact congrArg Prod.snd received
      apply map_account_cons accountEq
      intro continues
      have unended : (before ++ leaving :: after).any Event.ends = !true :=
        continues ▸ turn.any_ends_eq
      simp [ends] at unended
  | cons events earlier ih =>
      apply map_account_cons rfl
      intro continues
      exact ih _

theorem map_turn_turns_congr (session : Session) (cycles : Nat) {script rest : List (List Event)}
    (same : script.map noticed = rest.map noticed) :
    (session.turns cycles script).map (·.outcome.turn) =
      (session.turns cycles rest).map (·.outcome.turn) := by
  induction script generalizing session rest with
  | nil => rw [List.map_eq_nil_iff.mp same.symm]
  | cons events script ih =>
      cases rest with
      | nil => cases same
      | cons others rest =>
          obtain ⟨sameEvents, sameRest⟩ := List.cons.inj same
          have outcomeEq : PlayedTurn.outcome ⟨session, cycles, events⟩ =
              PlayedTurn.outcome ⟨session, cycles, others⟩ := session.play_congr cycles sameEvents
          simp only [turns, List.map_cons, PlayedTurn.after, outcomeEq]
          split
          · rw [ih _ sameRest]
          · rfl

theorem map_turn_turns_effective (session : Session) (cycles : Nat)
    (script : List (List Event)) :
    (session.turns cycles (effective script)).map (·.outcome.turn) =
      (session.turns cycles script).map (·.outcome.turn) := by
  have accounts := map_account_effective (rfl : session.unhurried = _) cycles script
  have told := congrArg (List.map Account.turn) accounts
  rw [List.map_map, List.map_map] at told
  exact told

variable {host : Host} {options : Options} {machine : Machine} {opening : Opening}
  {script : List (List Event)}

/-- On a host that keeps up with the events, a session plays what it would play if it
took every event when it arrives. -/
theorem map_turn_turnsOn (keepsUp : host.events.KeepsUp)
    (opened : launch host options machine = .ok opening)
    (single : ∀ arriving ∈ script, arriving.length ≤ 1) :
    (turnsOn host options opening script).map (·.outcome.turn) =
      (opening.session.turns options.cyclesPerTurn (script ++ [[.closed]])).map
        (·.outcome.turn) := by
  have closing : ∀ arriving ∈ script ++ [[.closed]], arriving.length ≤ 1 := by
    intro arriving member
    rcases List.mem_append.mp member with earlier | closes
    · exact single arriving earlier
    · rw [List.mem_singleton.mp closes]
      exact Nat.le_refl 1
  obtain ⟨audio, queueEq⟩ := exists_opening_of_launch opened
  rw [turnsOn, queueEq]
  exact map_turn_turns_congr _ _ (keepsUp audio closing)

/-- Leaving out what does not matter before it arrives leaves the transcript as it
is, if the host keeps up with the events. -/
theorem run_effective (keepsUp : host.events.KeepsUp) (options : Options) (machine : Machine)
    (single : ∀ arriving ∈ script, arriving.length ≤ 1) :
    run host options machine (effective script) = run host options machine script := by
  cases opened : launch host options machine with
  | error error => simp only [run, opened]
  | ok opening =>
      have singleToo : ∀ arriving ∈ effective script, arriving.length ≤ 1 :=
        fun arriving => length_le_of_mem_effective single
      have turnsEq :
          (turnsOn host options opening (effective script)).map (·.outcome.turn) =
            (turnsOn host options opening script).map (·.outcome.turn) := by
        rw [map_turn_turnsOn keepsUp opened singleToo, map_turn_turnsOn keepsUp opened single,
          ← map_turn_turns_effective, effective_append, map_turn_turns_effective]
      rw [run_eq opened, run_eq opened, turnsEq]

/-- The events that matter settle a session, with the turns in which they come, and
it does not matter which of those that can end it does.  On a host only what it
delivers counts; if it keeps up, events can be left out before they arrive. -/
theorem settled_by_effective_events (session : Session) (cycles : Nat)
    (script : List (List Event)) :
    let turns := session.turns cycles script
    (session.turns cycles (effective script)).map account = turns.map account ∧
      (∀ turn ∈ turns, turn.outcome.continues = false →
        turn.outcome.turn.shown = [] ∧ turn.outcome.turn.log = [] ∧
          (∀ exchange ∈ turn.exchanges, ∃ byte down, exchange.call = .setKey byte down) ∧
          ∃ keypad, turn.after.machine =
            { turn.before.machine with
              state := { turn.before.machine.state with keypad } }) ∧
      (∀ (earlier later : List (List Event)) (before after : List Event)
        (leaving replacing : Event),
        script = earlier ++ (before ++ leaving :: after) :: later →
        leaving.ends = true → replacing.ends = true →
        (session.turns cycles (earlier ++ (before ++ replacing :: after) :: later)).map account =
          turns.map account) ∧
      (∀ (host : Host) (options : Options) (machine : Machine) (opening : Opening),
        launch host options machine = .ok opening →
        let received := host.events.deliver opening.queue (script ++ [[.closed]])
        let played := host.presentAll 0
          ((opening.session.turns options.cyclesPerTurn (effective received)).map
            (·.outcome.turn))
        let transcript := run host options machine script
        transcript.turns = opening.turn :: played.1 ∧ transcript.error = played.2) ∧
      ((∀ arriving ∈ script, arriving.length ≤ 1) →
        ∀ (host : Host) (options : Options) (machine : Machine), host.events.KeepsUp →
          run host options machine (effective script) = run host options machine script) := by
  intro turns
  refine ⟨map_account_effective rfl cycles script, ?_, ?_, ?_, ?_⟩
  · intro turn member ended
    exact leaving_turn ended
  · rintro earlier later before after leaving replacing rfl ends endsToo
    exact session.map_account_leaving cycles ends endsToo earlier before after later
  · intro host options machine opening opened received played transcript
    have playedEq : played = host.presentAll 0
        ((turnsOn host options opening script).map (·.outcome.turn)) :=
      congrArg (host.presentAll 0)
        (opening.session.map_turn_turns_effective options.cyclesPerTurn received)
    have transcriptEq : transcript = _ := run_eq opened script
    rw [transcriptEq, playedEq]
    exact ⟨rfl, rfl⟩
  · intro single host options machine keepsUp
    exact run_effective keepsUp options machine single

/-- A session in which a key is pressed before escape ends it, and the same with the
window closed instead; and runs in which no more than an event arrives at a time. -/
theorem settled_by_effective_events_escaping :
    let session := (silentOpening (.new {} (.cycle #[]))).session
    let pressing : List Event := [.other, .keyDown (some (.ofChar 'q')), .keyDown none]
    let before : List Event := [.keyDown (some (.ofChar ' ')), .keyUp (some (.ofChar '\x1b'))]
    let escape : Event := .keyDown (some (.ofChar '\x1b'))
    let after : List Event := [.keyUp (some (.ofChar 'q'))]
    let later : List (List Event) := [[.keyDown (some (.ofChar 'w'))]]
    let script := pressing :: (before ++ escape :: after) :: later
    let slow : List (List Event) := [[.other], [.keyDown (some (.ofChar 'q'))], [escape]]
    let machine := Machine.new {} (.cycle #[])
    effective script = [[.keyDown (some (.ofChar 'q'))], [escape], []] ∧
      (session.turns 10 (effective script)).map account =
        (session.turns 10 script).map account ∧
      (session.turns 10 (pressing :: (before ++ .closed :: after) :: later)).map account =
        (session.turns 10 script).map account ∧
      (∀ arriving ∈ slow, arriving.length ≤ 1) ∧
      run {} (.silent 10) machine (effective slow) = run {} (.silent 10) machine slow ∧
      run .polling (.silent 10) machine (effective slow) =
        run .polling (.silent 10) machine slow := by
  intro session pressing before escape after later script slow machine
  have kept : effective script = [[.keyDown (some (.ofChar 'q'))], [escape], []] := by
    decide
  have ends : escape.ends = true := by decide
  have single : ∀ arriving ∈ slow, arriving.length ≤ 1 := by simp [slow]
  obtain ⟨same, -, replaced, -⟩ := settled_by_effective_events session 10 script
  obtain ⟨-, -, -, -, keptUp⟩ := settled_by_effective_events session 10 slow
  have keptUp := keptUp single
  refine ⟨kept, same, ?_, single, ?_, ?_⟩
  · exact replaced [pressing] later before after escape .closed rfl ends rfl
  · exact keptUp {} (.silent 10) machine EventSource.prompt.keepsUp
  · exact keptUp .polling (.silent 10) machine EventSource.polled.keepsUp

end Session

end ChipEight
