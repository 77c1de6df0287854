import ChipEight.Proofs.Execution
import ChipEight.Proofs.Fetching
import ChipEight.Proofs.Session.Turns

/-!
# Held keys

While no state is restored, the keypad holds the keys that the events of the
session last reported down.  A restored state brings its own keypad along, so
that a key stays as it was when the restored instruction was executed, until
the next event for it.
-/

namespace ChipEight

namespace Event

/-- Whether an event reports a key down or up, if it is about that key. -/
def change? (key : Key) (event : Event) : Option Bool :=
  event.keyChange?.bind fun (changed, down) => if changed = key then some down else none

end Event

/-- What the last event about a key reports. -/
def lastChange? (key : Key) (events : List Event) : Option Bool :=
  (events.filterMap (Event.change? key)).getLast?

theorem lastChange?_append (key : Key) (events later : List Event) :
    lastChange? key (events ++ later) = (lastChange? key later).or (lastChange? key events) := by
  rw [lastChange?, List.filterMap_append, List.getLast?_append]
  rfl

theorem lastChange?_cons (key : Key) (event : Event) (events : List Event) :
    lastChange? key (event :: events) = (lastChange? key events).or (event.change? key) := by
  rw [← List.singleton_append, lastChange?_append]
  cases reported : event.change? key <;> simp [lastChange?, reported]

/-- The calls for the keys leave every key as the last event about it
reports. -/
theorem isDown_performAll_calls (machine : Machine) (key : Key) (events : List Event) :
    (machine.performAll (events.filterMap Event.call?)).state.keypad.isDown key =
      (lastChange? key events).getD (machine.state.keypad.isDown key) := by
  induction events generalizing machine with
  | nil => rfl
  | cons event events ih =>
      rw [lastChange?_cons]
      cases about : event.keyChange? with
      | none =>
          have unmade : event.call? = none := by simp only [Event.call?, about, Option.map_none]
          have silent : event.change? key = none := by
            simp only [Event.change?, about, Option.bind_none]
          rw [List.filterMap_cons_none unmade, silent, Option.or_none]
          exact ih machine
      | some change =>
          obtain ⟨changed, down⟩ := change
          have made : event.call? = some (.setKey changed.toByte down) := by
            simp only [Event.call?, about, Option.map_some]
          have performed : (machine.perform (.setKey changed.toByte down)).machine =
              machine.holdKey changed down := by
            simp only [Machine.perform, Machine.setKey, Key.ofByte?_toByte]
          rw [List.filterMap_cons_some made]
          refine (ih (machine.perform (.setKey changed.toByte down)).machine).trans ?_
          rw [performed]
          by_cases same : changed = key
          · subst same
            have reported : event.change? changed = some down := by
              simp [Event.change?, about]
            rw [reported]
            cases lastChange? changed events <;> simp [Machine.holdKey]
          · have silent : event.change? key = none := by simp [Event.change?, about, same]
            rw [silent, Option.or_none]
            simp only [Machine.holdKey, Keypad.isDown_set_of_ne _ _ same]

namespace Exchange

/-- Of the calls that a session makes of its own accord, only one that restores
a state can change the keypad. -/
theorem keypad_after {exchange : Exchange}
    (own : exchange.call = .takeFrame ∨ exchange.call = .rewind ∨ exchange.call = .step ∨
      exchange.call = .tick)
    (unrestored : exchange.restores = false) :
    exchange.after.state.keypad = exchange.before.state.keypad := by
  obtain ⟨before, call⟩ := exchange
  have performed := before.performs_perform call
  simp only [restores, after, reply, outcome] at own unrestored ⊢
  generalize (before.perform call).value = answer at performed unrestored
  generalize (before.perform call).machine = after at performed
  cases performed with
  | executed fetched executed => exact Word.keypad_of_execute executed
  | rewound past => cases unrestored
  | held | reset | loaded | loadedFrom => simp at own
  | _ => rfl

end Exchange

namespace Machine

variable {machine : Machine} {calls : List Call}

theorem keypad_performAll (machine : Machine)
    (own : ∀ call ∈ calls, call = .takeFrame ∨ call = .rewind ∨ call = .step ∨ call = .tick)
    (unrestored : ∀ exchange ∈ machine.exchanges calls, exchange.restores = false) :
    (machine.performAll calls).state.keypad = machine.state.keypad := by
  refine invariant_exchanges (fun later => later.state.keypad = machine.state.keypad) ?_ rfl
  intro exchange member same
  have kept := exchange.keypad_after (own _ (call_mem_of_mem_exchanges member))
    (unrestored exchange member)
  exact kept.trans same

theorem exists_keypad_performAll
    (rewinds : ∀ call ∈ calls, call = .takeFrame ∨ call = .rewind)
    (restored : (machine.exchanges calls).any Exchange.restores = true) :
    ∃ state ∈ machine.history.states,
      (machine.performAll calls).state.keypad = state.keypad := by
  induction calls generalizing machine with
  | nil => cases restored
  | cons call calls ih =>
      have rest : ∀ later ∈ calls, later = .takeFrame ∨ later = .rewind := fun later member =>
        rewinds later (List.mem_cons_of_mem _ member)
      cases again : ((machine.perform call).machine.exchanges calls).any Exchange.restores with
      | true =>
          obtain ⟨state, recorded, same⟩ := ih rest again
          refine ⟨state, ?_, same⟩
          rcases Exchange.mem_history_after ⟨machine, call⟩ recorded with
            old | ⟨executed, -⟩
          · exact old
          · have other : call ≠ .step := by
              rcases rewinds call List.mem_cons_self with rfl | rfl <;> simp
            rw [Exchange.executed?_eq_none other] at executed
            cases executed
      | false =>
          -- Nothing is restored after this call, so the call itself restores.
          have here : Exchange.restores ⟨machine, call⟩ = true := by
            simpa [exchanges, again] using restored
          obtain ⟨newest, older, past, afterEq⟩ := Exchange.exists_of_restores here
          have same : (machine.perform call).machine.state.keypad = newest.keypad := by
            rw [show (machine.perform call).machine = _ from afterEq]
          refine ⟨newest, past ▸ List.mem_cons_self, Eq.trans ?_ same⟩
          refine keypad_performAll (machine.perform call).machine ?_ ?_
          · intro later member
            rcases rest later member with rfl | rfl <;> simp
          · simpa using again

end Machine

/-- What a session knows of a key without looking at the keypad. -/
structure KeyReport where
  /-- Whether the last event about the key reported it down. -/
  down : Bool
  /-- How the state that was restored last holds the key, if that was after the
  last event about it. -/
  restored : Option Bool

namespace KeyReport

def unheard : KeyReport where
  down := false
  restored := none

def held (report : KeyReport) : Bool :=
  report.restored.getD report.down

/-- Learn from the events of a turn and from the state that it restored. -/
def note (key : Key) (report : KeyReport) (turn : PlayedTurn) : KeyReport :=
  let heard :=
    match lastChange? key turn.events with
    | some down => { down, restored := none }
    | none => report
  if turn.restores then
    { heard with restored := some (turn.after.machine.state.keypad.isDown key) }
  else
    heard

def ofTurns (key : Key) (turns : List PlayedTurn) : KeyReport :=
  turns.foldl (note key) unheard

end KeyReport

namespace PlayedTurn

theorem restores_eq (turn : PlayedTurn) :
    turn.restores = (turn.received.machine.exchanges turn.ownCalls).any Exchange.restores := by
  have silent : (turn.before.machine.exchanges turn.keyCalls).any Exchange.restores = false := by
    refine List.any_eq_false.mpr fun exchange member => ?_
    simp [Exchange.restores_of_silent (silent_of_mem_keyCalls member)]
  rw [restores, exchanges_eq, List.any_append, silent, Bool.false_or]

theorem own_of_mem_ownCalls {turn : PlayedTurn} {call : Call} (member : call ∈ turn.ownCalls) :
    call = .takeFrame ∨ call = .rewind ∨ call = .step ∨ call = .tick := by
  rcases (mem_ownCalls member).2 with taking | ⟨-, rewinding⟩ | ⟨-, -, running⟩
  · exact Or.inl taking
  · exact Or.inr (Or.inl rewinding)
  · exact Or.inr (Or.inr running)

theorem rewinds_of_restores {turn : PlayedTurn} (restores : turn.restores = true) :
    ∀ call ∈ turn.ownCalls, call = .takeFrame ∨ call = .rewind := by
  rw [restores_eq] at restores
  obtain ⟨exchange, member, here⟩ := List.any_eq_true.mp restores
  have rewinding : turn.received.rewinding = true := by
    have called := (mem_ownCalls (Machine.call_mem_of_mem_exchanges member)).2
    rw [Exchange.call_of_restores here] at called
    simpa using called
  intro call own
  rcases (mem_ownCalls own).2 with taking | ⟨-, again⟩ | ⟨onward, -⟩
  · exact Or.inl taking
  · exact Or.inr again
  · rw [rewinding] at onward
    cases onward

theorem keypad_after {turn : PlayedTurn} (unrestored : turn.restores = false) :
    turn.after.machine.state.keypad = turn.received.machine.state.keypad := by
  rw [turn.machine_after_own]
  refine turn.received.machine.keypad_performAll (fun call => own_of_mem_ownCalls) ?_
  simpa [restores_eq] using unrestored

/-- In a turn that goes on, the events leave every key as they report it. -/
theorem isDown_received {turn : PlayedTurn} (continues : turn.outcome.continues = true)
    (key : Key) :
    turn.received.machine.state.keypad.isDown key =
      (lastChange? key turn.events).getD (turn.before.machine.state.keypad.isDown key) := by
  rw [machine_received, keyCalls, heard_eq continues, isDown_performAll_calls]

end PlayedTurn

namespace KeyReport

variable {key : Key} {report : KeyReport} {turn : PlayedTurn}

theorem ofTurns_snoc (key : Key) (turns : List PlayedTurn) (turn : PlayedTurn) :
    ofTurns key (turns ++ [turn]) = note key (ofTurns key turns) turn :=
  List.foldl_append

theorem down_note :
    (report.note key turn).down = (lastChange? key turn.events).getD report.down := by
  unfold note
  cases lastChange? key turn.events <;> cases turn.restores <;> rfl

theorem held_note_of_unrestored (unrestored : turn.restores = false) :
    (report.note key turn).held = (lastChange? key turn.events).getD report.held := by
  unfold note
  rw [unrestored]
  cases lastChange? key turn.events <;> rfl

theorem restored_note_of_restores (restores : turn.restores = true) :
    (report.note key turn).restored =
      some (turn.after.machine.state.keypad.isDown key) := by
  simp only [note, restores, if_true]

/-- A turn that restores nothing can only forget what was restored before. -/
theorem restored_note_of_unrestored (key : Key) (report : KeyReport)
    (unrestored : turn.restores = false) :
    (report.note key turn).restored = none ∨
      (report.note key turn).restored = report.restored := by
  unfold note
  rw [unrestored]
  cases lastChange? key turn.events with
  | none => exact Or.inr rfl
  | some down => exact Or.inl rfl

/-- The keypad differs from the events exactly if a state was restored that
holds the key the other way. -/
theorem held_iff_reported {reported : Option Bool} (down : report.down = reported.getD false) :
    (report.held = true ↔ reported = some true) ↔
      report.restored = none ∨ report.restored = some report.down := by
  have downIff : report.down = true ↔ reported = some true := by
    rw [down]
    rcases reported with _ | _ | _ <;> simp
  rw [← downIff, held]
  rcases report.restored with _ | value
  · simp
  · cases value <;> cases report.down <;> simp

end KeyReport

/-- What the turns that were played tell about the keys of a session. -/
structure KeysKnown (turns : List PlayedTurn) (session : Session) : Prop where
  held : ∀ key, session.machine.state.keypad.isDown key = (KeyReport.ofTurns key turns).held
  down : ∀ key, (KeyReport.ofTurns key turns).down =
    (lastChange? key (turns.flatMap PlayedTurn.events)).getD false
  /-- A restored key is held as it was when an earlier word was executed. -/
  restored : ∀ key value, (KeyReport.ofTurns key turns).restored = some value →
    ∃ past ∈ turns.flatMap PlayedTurn.exchanges, past.executed?.isSome ∧
      past.before.state.keypad.isDown key = value
  recorded : ∀ state ∈ session.machine.history.states,
    ∃ past ∈ turns.flatMap PlayedTurn.exchanges, past.executed?.isSome ∧
      past.before.state = state

namespace KeysKnown

variable {turns : List PlayedTurn} {turn : PlayedTurn}

theorem start {session : Session} (released : session.machine.state.keypad = .released)
    (fresh : session.machine.history.states = []) : KeysKnown [] session where
  held := by
    intro key
    rw [released, Keypad.isDown_released]
    rfl
  down := fun key => rfl
  restored := by
    intro key value restored
    cases restored
  recorded := by
    intro state recorded
    rw [fresh] at recorded
    cases recorded

theorem recorded_of_subset {calls : List Call} {state : State}
    (known : KeysKnown turns turn.before)
    (subset : ∀ exchange ∈ turn.before.machine.exchanges calls, exchange ∈ turn.exchanges)
    (recorded : state ∈ (turn.before.machine.performAll calls).history.states) :
    ∃ past ∈ (turns ++ [turn]).flatMap PlayedTurn.exchanges, past.executed?.isSome ∧
      past.before.state = state := by
  rw [List.flatMap_append, List.flatMap_singleton]
  rcases Machine.mem_history_performAll recorded with old | ⟨past, member, executed⟩
  · obtain ⟨past, member, executed⟩ := known.recorded state old
    exact ⟨past, List.mem_append_left _ member, executed⟩
  · exact ⟨past, List.mem_append_right _ (subset past member), executed⟩

theorem snoc (known : KeysKnown turns turn.before) (continues : turn.outcome.continues = true) :
    KeysKnown (turns ++ [turn]) turn.after where
  held := by
    intro key
    rw [KeyReport.ofTurns_snoc]
    cases restores : turn.restores with
    | true => rw [KeyReport.held, KeyReport.restored_note_of_restores restores, Option.getD_some]
    | false =>
        rw [KeyReport.held_note_of_unrestored restores, PlayedTurn.keypad_after restores,
          PlayedTurn.isDown_received continues, known.held]
  down := by
    intro key
    rw [KeyReport.ofTurns_snoc, KeyReport.down_note, known.down, List.flatMap_append,
      List.flatMap_singleton, lastChange?_append]
    cases lastChange? key turn.events <;> rfl
  restored := by
    intro key value restored
    rw [KeyReport.ofTurns_snoc] at restored
    cases restores : turn.restores with
    | true =>
        rw [KeyReport.restored_note_of_restores restores] at restored
        have recording := restores
        rw [PlayedTurn.restores_eq] at recording
        obtain ⟨state, recorded, same⟩ := Machine.exists_keypad_performAll
          (PlayedTurn.rewinds_of_restores restores) recording
        rw [PlayedTurn.machine_received] at recorded
        obtain ⟨past, member, executed, beforeEq⟩ := known.recorded_of_subset (by
          intro exchange member
          rw [turn.exchanges_eq]
          exact List.mem_append_left _ member) recorded
        refine ⟨past, member, executed, ?_⟩
        rw [beforeEq, ← same, ← turn.machine_after_own]
        exact Option.some.inj restored
    | false =>
        rcases KeyReport.restored_note_of_unrestored key (KeyReport.ofTurns key turns)
          restores with forgotten | kept
        · rw [forgotten] at restored
          cases restored
        · rw [kept] at restored
          obtain ⟨past, member, executed⟩ := known.restored key value restored
          refine ⟨past, ?_, executed⟩
          rw [List.flatMap_append]
          exact List.mem_append_left _ member
  recorded := by
    intro state recorded
    rw [turn.machine_after] at recorded
    exact known.recorded_of_subset (fun exchange member => member) recorded

end KeysKnown

/-- While a turn executes words, the keypad is as its events left it. -/
theorem PlayedTurn.keypad_of_step {turn : PlayedTurn} {exchange : Exchange}
    (member : exchange ∈ turn.exchanges) (steps : exchange.call = .step) :
    turn.outcome.continues = true ∧ turn.restores = false ∧
      exchange.before.state.keypad = turn.received.machine.state.keypad := by
  rw [turn.exchanges_eq] at member
  rcases List.mem_append.mp member with prompted | own
  · exact absurd steps (Exchange.call_ne_step_of_silent (silent_of_mem_keyCalls prompted))
  · have called := Machine.call_mem_of_mem_exchanges own
    have unrestored : turn.restores = false := by
      refine Bool.eq_false_iff.mpr fun restores => ?_
      rcases rewinds_of_restores restores _ called with other | other <;>
        rw [steps] at other <;> cases other
    refine ⟨(mem_ownCalls called).1, unrestored, ?_⟩
    obtain ⟨done, rest, callsEq, beforeEq⟩ := Machine.exists_of_mem_exchanges own
    rw [beforeEq]
    rw [restores_eq, callsEq, Machine.exchanges_append, List.any_append,
      Bool.or_eq_false_iff] at unrestored
    refine turn.received.machine.keypad_performAll ?_ (by simpa using unrestored.1)
    intro call earlier
    exact own_of_mem_ownCalls (by rw [callsEq]; exact List.mem_append_left _ earlier)

namespace Session

/-- When a session executes a word, every key is held as the last event about it reported,
unless a state was restored since.  Then it is held as it was when some earlier word was
executed. -/
theorem isDown_of_step (config : Config) (random : RandomSource) (program : Array UInt8)
    {host : Host} {options : Options} {opening : Opening}
    (opened : launch host options ((Machine.new config random).load program).machine =
      .ok opening)
    {script : List (List Event)} {earlier later : List PlayedTurn} {turn : PlayedTurn}
    (played : opening.session.turns options.cyclesPerTurn script = earlier ++ turn :: later)
    {exchange : Exchange} (member : exchange ∈ turn.exchanges) (steps : exchange.call = .step)
    (key : Key) :
    let reported := lastChange? key ((earlier ++ [turn]).flatMap PlayedTurn.events)
    let report := KeyReport.ofTurns key (earlier ++ [turn])
    let isDown := exchange.before.state.keypad.isDown key
    report.down = reported.getD false ∧ isDown = report.held ∧
      ((isDown = true ↔ reported = some true) ↔
        report.restored = none ∨ report.restored = some report.down) ∧
      ∀ value, report.restored = some value →
        ∃ past ∈ earlier.flatMap PlayedTurn.exchanges, past.executed?.isSome ∧
          past.before.state.keypad.isDown key = value := by
  intro reported report isDown
  obtain ⟨⟨content, stateEq⟩, historyEq, -, -⟩ := start_of_launch opened
  have known : KeysKnown earlier turn.before := by
    refine invariant_turns KeysKnown (KeysKnown.start ?_ historyEq) ?_ played
    · rw [stateEq]
      rfl
    · intro turns turn _ continues known
      exact known.snoc continues
  obtain ⟨continues, unrestored, keypadEq⟩ := PlayedTurn.keypad_of_step member steps
  have after := known.snoc continues
  have down : report.down = reported.getD false := after.down key
  have held : isDown = report.held := by
    rw [← after.held key, PlayedTurn.keypad_after unrestored, ← keypadEq]
  refine ⟨down, held, ?_, ?_⟩
  · rw [held]
    exact KeyReport.held_iff_reported down
  · intro value restored
    rcases KeyReport.restored_note_of_unrestored key (KeyReport.ofTurns key earlier)
      unrestored with forgotten | kept
    · rw [← KeyReport.ofTurns_snoc] at forgotten
      rw [forgotten] at restored
      cases restored
    · rw [← KeyReport.ofTurns_snoc] at kept
      exact known.restored key value (kept.symm.trans restored)

theorem play_press {machine after : Machine} {log : List Notice}
    (stepped : (machine.holdKey 0 true).step = ⟨.ok (), after, log⟩)
    (quiet : after.state.redraw = false) :
    Session.play { machine, speaker := .silent } 1 [.keyDown (some (.ofChar 'x'))] =
      ⟨{ log }, { machine := after.tick, speaker := .silent }, true⟩ := by
  have received : receiveAll { machine, speaker := .silent }
      [.keyDown (some (.ofChar 'x'))] =
        ({ machine := machine.holdKey 0 true, speaker := .silent }, true) := rfl
  simp [play, received, update, Machine.runCycles, stepped, setTone, present, Machine.takeFrame,
    Machine.tick, State.tick, quiet, Speaker.setActive]

theorem play_release {machine : Machine} {state : State}
    (past : machine.history.states = [state]) :
    Session.play { machine, speaker := .silent } 1
        [.keyUp (some (.ofChar 'x')), .keyDown (some (.ofChar '\x08'))] =
      ⟨{ shown := [state.frame] },
        { machine := { machine with state := { state with redraw := false }, history := ⟨[]⟩ }
          speaker := .silent
          rewinding := true }, true⟩ := by
  have received : receiveAll { machine, speaker := .silent }
      [.keyUp (some (.ofChar 'x')), .keyDown (some (.ofChar '\x08'))] =
        ({ machine := machine.holdKey 0 false, speaker := .silent, rewinding := true }, true) :=
    rfl
  simp [play, received, update, Machine.rewindCycles, Machine.rewind?, History.undo?, past,
    Machine.holdKey, setTone, present, Machine.takeFrame, Machine.clearRedraw, Speaker.setActive]

namespace StuckKey

/-- Press a key in a turn that executes a word, and release it in a turn that
rewinds.  Then go on. -/
def script : List (List Event) := [
  [.keyDown (some (.ofChar 'x'))],
  [.keyUp (some (.ofChar 'x')), .keyDown (some (.ofChar '\x08'))],
  [.keyUp (some (.ofChar '\x08'))],
  [.closed]]

def pressing (machine : Machine) : PlayedTurn :=
  ⟨(silentOpening machine).session, 1, [.keyDown (some (.ofChar 'x'))]⟩

def releasing (machine : Machine) : PlayedTurn :=
  ⟨(pressing machine).after, 1,
    [.keyUp (some (.ofChar 'x')), .keyDown (some (.ofChar '\x08'))]⟩

def resuming (machine : Machine) : PlayedTurn :=
  ⟨(releasing machine).after, 1, [.keyUp (some (.ofChar '\x08'))]⟩

def closing (machine : Machine) : PlayedTurn :=
  ⟨(resuming machine).after, 1, [.closed]⟩

/-- The first step after going on. -/
def lastStep (machine : Machine) : Exchange :=
  ⟨(resuming machine).received.machine, .step⟩

/-- The key is down when the word is executed once more. -/
theorem stuck {machine : Machine} {word : Word} {condition : Condition}
    (fetched : machine.state.fetch = .ok word)
    (decoded : word.decode = some (.skip condition))
    (fresh : machine.history.states = []) (room : machine.config.history ≠ 0)
    (quiet : machine.state.redraw = false) :
    (silentOpening machine).session.turns 1 script =
        [pressing machine, releasing machine] ++ resuming machine :: [closing machine] ∧
      lastStep machine ∈ (resuming machine).exchanges ∧
      (lastStep machine).before.state.keypad = machine.state.keypad.set 0 true := by
  let pressed := machine.holdKey 0 true
  let skipped := pressed.state.skipIf (condition.holds pressed.state)
  have stepped : pressed.step =
      ⟨.ok (), pressed.advance word skipped, pressed.stepLog word⟩ := by
    refine Machine.step_of_executed fetched ?_
    simp only [Word.execute, decoded, Instruction.execute]
    rfl
  have first : (pressing machine).outcome =
      ⟨{ log := pressed.stepLog word },
        { machine := (pressed.advance word skipped).tick, speaker := .silent }, true⟩ :=
    play_press stepped quiet
  have past : (pressed.advance word skipped).tick.history.states = [pressed.state] := by
    have fresh : pressed.history.states = [] := fresh
    have room : pressed.config.history ≠ 0 := room
    simp [Machine.tick, Machine.advance, History.record, fresh, room, Ne.symm room]
  have second : (releasing machine).outcome =
      ⟨{ shown := [pressed.state.frame] },
        { machine := { (pressed.advance word skipped).tick with
            state := { pressed.state with redraw := false }, history := ⟨[]⟩ }
          speaker := .silent
          rewinding := true }, true⟩ := by
    rw [releasing, PlayedTurn.outcome, PlayedTurn.after, first]
    exact play_release past
  have last : (resuming machine).before = (releasing machine).outcome.session := rfl
  have third : (resuming machine).outcome.continues = true := by
    rw [PlayedTurn.continues_eq, last, second]
    rfl
  refine ⟨?_, ?_, ?_⟩
  · refine (turns_of_continues (pressing machine) (by rw [first])).trans (congrArg _ ?_)
    refine (turns_of_continues (releasing machine) (by rw [second])).trans (congrArg _ ?_)
    refine (turns_of_continues (resuming machine) third).trans (congrArg _ ?_)
    exact turns_singleton _ 1 [.closed]
  · refine PlayedTurn.step_mem_exchanges third ?_ ?_ Nat.one_ne_zero
    · rw [PlayedTurn.received, last, second]
      rfl
    · rw [PlayedTurn.received, last, second]
      rfl
  · rw [lastStep, PlayedTurn.received, last, second]
    rfl

/-- A program of one word that looks at the key. -/
def loaded : Machine :=
  ((Machine.new {} (.cycle #[])).load #[0xE0, 0x9E]).machine

theorem stuck_loaded :
    (silentOpening loaded).session.turns 1 script =
        [pressing loaded, releasing loaded] ++ resuming loaded :: [closing loaded] ∧
      lastStep loaded ∈ (resuming loaded).exchanges ∧
      (lastStep loaded).before.state.keypad = loaded.state.keypad.set 0 true := by
  have first : #[(0xE0 : UInt8), 0x9E][0]? = some 0xE0 := rfl
  have second : #[(0xE0 : UInt8), 0x9E][1]? = some 0x9E := rfl
  have fetched : loaded.state.fetch = .ok 0xE09E := State.fetch_boot first second
  have decoded : Word.decode 0xE09E = some (.skip (.keyDown 0)) := rfl
  exact stuck fetched decoded rfl (by decide) rfl

end StuckKey

open StuckKey in
/-- The key that was released while rewinding is held as it was when the word
was executed first. -/
theorem isDown_of_step_rewound :
    launch {} (.silent 1) loaded = .ok (silentOpening loaded) ∧
      lastStep loaded ∈ (resuming loaded).exchanges ∧
      (lastStep loaded).before.state.keypad.isDown 0 =
        (KeyReport.ofTurns 0 ([pressing loaded, releasing loaded] ++ [resuming loaded])).held := by
  obtain ⟨played, member, -⟩ := stuck_loaded
  have opened : launch {} (.silent 1) loaded = .ok (silentOpening loaded) :=
    launch_silent loaded 1
  have known := isDown_of_step {} (.cycle #[]) #[0xE0, 0x9E] opened played member rfl 0
  exact ⟨opened, member, known.2.1⟩

open StuckKey in
/-- That key is down although the last event about it reported it up. -/
theorem isDown_of_released :
    launch {} (.silent 1) loaded = .ok (silentOpening loaded) ∧
      (silentOpening loaded).session.turns 1 script =
        [pressing loaded, releasing loaded] ++ resuming loaded :: [closing loaded] ∧
      lastStep loaded ∈ (resuming loaded).exchanges ∧
      (lastStep loaded).before.state.keypad.isDown 0 = true ∧
      lastChange? 0 (([pressing loaded, releasing loaded] ++ [resuming loaded]).flatMap
        PlayedTurn.events) = some false := by
  obtain ⟨played, member, keypadEq⟩ := stuck_loaded
  refine ⟨rfl, played, member, ?_, rfl⟩
  rw [keypadEq, Keypad.isDown_set_self]

end Session

end ChipEight
