import ChipEight.Proofs.Presentation
import ChipEight.Proofs.Session.Turns

/-!
# The picture in the window

A turn takes the picture once, after all its other calls.  The mark is down when
a turn starts, since the turn before took the picture, and goes up exactly if the
picture is cleared, drawn or restored.  So the picture in the window is the
machine's whenever a turn is over.
-/

namespace ChipEight

/-- Whether a call belongs to the part of a turn that comes before the picture
is taken. -/
def Call.updates : Call → Bool
  | .step | .rewind | .tick | .setKey _ _ => true
  | _ => false

namespace Exchange

/-- Whether a word that clears or draws the picture was executed, or an earlier
state was restored. -/
def redraws (exchange : Exchange) : Bool :=
  exchange.restores || exchange.executed?.any Word.redraws

theorem redraws_iff {exchange : Exchange} :
    exchange.redraws = true ↔ exchange.restores = true ∨
      ∃ word, exchange.executed? = some word ∧ word.redraws = true := by
  rw [redraws, Bool.or_eq_true, Option.any_eq_true]

theorem redraws_eq_false {exchange : Exchange} (other : exchange.call ≠ .step)
    (unrestored : exchange.restores = false) : exchange.redraws = false := by
  rw [redraws, unrestored, executed?_eq_none other]
  rfl

/-- The mark goes up exactly where the picture is redrawn, and the picture
stays the same while the mark is down. -/
theorem redraw_after (exchange : Exchange) (updates : exchange.call.updates = true) :
    exchange.after.state.redraw = (exchange.before.state.redraw || exchange.redraws) ∧
      (exchange.after.state.redraw = false →
        exchange.after.state.frame = exchange.before.state.frame) := by
  obtain ⟨before, call⟩ := exchange
  have performed := before.performs_perform call
  simp only [redraws, restores, executed?, after, reply, outcome] at updates ⊢
  generalize (before.perform call).value = answer at performed
  generalize (before.perform call).machine = after at performed
  cases performed with
  | executed fetched executed =>
      constructor
      · rw [fetched]
        exact Word.redraw_of_execute executed
      · intro upToDate
        rcases Word.frame_of_execute executed with ⟨same, -⟩ | raised
        · exact same
        · cases raised.symm.trans upToDate
  | rewound past =>
      refine ⟨(Bool.or_true _).symm, ?_⟩
      intro upToDate
      cases upToDate
  | taken | upToDate | cleared | reset | loaded | tooLarge | loadedFrom | refusedFrom =>
      cases updates
  | _ => exact ⟨(Bool.or_false _).symm, fun _ => rfl⟩

end Exchange

namespace Machine

variable {machine : Machine} {calls : List Call}

theorem redraw_performAll (machine : Machine) (updates : ∀ call ∈ calls, call.updates = true) :
    (machine.performAll calls).state.redraw =
        (machine.state.redraw || (machine.exchanges calls).any Exchange.redraws) ∧
      ((machine.performAll calls).state.redraw = false →
        (machine.performAll calls).state.frame = machine.state.frame) := by
  induction calls generalizing machine with
  | nil => exact ⟨(Bool.or_false _).symm, fun _ => rfl⟩
  | cons call calls ih =>
      have here := Exchange.redraw_after ⟨machine, call⟩ (updates call List.mem_cons_self)
      have rest := ih (machine.perform call).machine fun later member =>
        updates later (List.mem_cons_of_mem _ member)
      have markEq : (machine.performAll (call :: calls)).state.redraw =
          (machine.state.redraw || (machine.exchanges (call :: calls)).any Exchange.redraws) := by
        rw [exchanges, List.any_cons, ← Bool.or_assoc, ← here.1]
        exact rest.1
      refine ⟨markEq, ?_⟩
      intro upToDate
      have frameEq := rest.2 upToDate
      refine frameEq.trans (here.2 ?_)
      have quiet := rest.1.symm.trans upToDate
      exact (Bool.or_eq_false_iff.mp quiet).1

theorem clearRedraw_of_quiet (quiet : machine.state.redraw = false) :
    machine.clearRedraw = machine := by
  rw [clearRedraw, ← quiet, State.mk_self]

/-- After taking the picture no redraw is pending, whether one was or not. -/
theorem takeFrame_eq (machine : Machine) :
    machine.takeFrame =
      (if machine.state.redraw then some machine.state.frame else none, machine.clearRedraw) := by
  cases pending : machine.state.redraw with
  | false => simp [takeFrame, pending, clearRedraw_of_quiet pending]
  | true => simp [takeFrame, pending]

theorem filterMap_picture?_takeFrame (machine : Machine) :
    (machine.exchanges [.takeFrame]).filterMap Exchange.picture? = machine.takeFrame.1.toList := by
  cases taken : machine.takeFrame.1 <;>
    simp [exchanges, Exchange.picture?, Exchange.reply, Exchange.outcome, perform, taken]

end Machine

namespace PlayedTurn

/-- The calls of a turn before it takes the picture. -/
def updating (turn : PlayedTurn) : List Call :=
  turn.keyCalls ++ if turn.outcome.continues then turn.received.updateCalls turn.cycles else []

/-- The machine whose picture a turn takes. -/
def updated (turn : PlayedTurn) : Machine :=
  turn.before.machine.performAll turn.updating

theorem updates_of_mem {turn : PlayedTurn} {call : Call} (member : call ∈ turn.updating) :
    call.updates = true := by
  rcases List.mem_append.mp member with prompted | own
  · obtain ⟨byte, down, rfl⟩ := key_of_mem_keyCalls prompted
    rfl
  · split at own
    · rcases Session.mem_updateCalls own with ⟨-, rfl⟩ | ⟨-, -, rfl | rfl⟩ <;> rfl
    · cases own

theorem calls_of_continues {turn : PlayedTurn} (continues : turn.outcome.continues = true) :
    turn.calls = turn.updating ++ [.takeFrame] := by
  rw [calls_eq, updating, ownCalls, if_pos continues, if_pos continues, List.append_assoc]

theorem calls_of_ended {turn : PlayedTurn} (ended : turn.outcome.continues = false) :
    turn.calls = turn.updating := by
  rw [calls_eq, updating, ownCalls, ended]
  rfl

theorem any_redraws_eq (turn : PlayedTurn) :
    turn.exchanges.any Exchange.redraws =
      (turn.before.machine.exchanges turn.updating).any Exchange.redraws := by
  cases goesOn : turn.outcome.continues with
  | false => rw [exchanges, calls_of_ended goesOn]
  | true =>
      rw [exchanges, calls_of_continues goesOn, Machine.exchanges_append, List.any_append]
      exact Bool.or_false _

theorem filterMap_picture?_updating (turn : PlayedTurn) :
    (turn.before.machine.exchanges turn.updating).filterMap Exchange.picture? = [] := by
  refine List.filterMap_eq_nil_iff.mpr fun exchange member => Exchange.picture?_eq_none ?_
  intro taking
  have updates := updates_of_mem (Machine.call_mem_of_mem_exchanges member)
  rw [taking] at updates
  cases updates

theorem shown_of_ended {turn : PlayedTurn} (ended : turn.outcome.continues = false) :
    turn.outcome.turn.shown = [] := by
  rw [shown_eq, exchanges, calls_of_ended ended, filterMap_picture?_updating]

theorem shown_of_continues {turn : PlayedTurn} (continues : turn.outcome.continues = true) :
    turn.outcome.turn.shown = turn.updated.takeFrame.1.toList ∧
      turn.after.machine = turn.updated.takeFrame.2 := by
  constructor
  · rw [shown_eq, exchanges, calls_of_continues continues, Machine.exchanges_append,
      List.filterMap_append, filterMap_picture?_updating]
    exact turn.updated.filterMap_picture?_takeFrame
  · rw [machine_after, calls_of_continues continues, Machine.performAll_append]
    rfl

/-- A turn that can neither execute nor rewind: the session ends in it, or is
halted and not rewinding, or there is nothing to rewind. -/
def Idle (turn : PlayedTurn) : Prop :=
  turn.outcome.continues = false ∨
    turn.received.rewinding = false ∧ turn.received.halted = true ∨
    turn.received.rewinding = true ∧ turn.received.machine.history.states = []

namespace Idle

variable {turn : PlayedTurn}

theorem own_of_mem (idle : turn.Idle) {call : Call} (member : call ∈ turn.ownCalls) :
    call = .takeFrame ∨ call = .rewind ∧ turn.received.machine.history.states = [] := by
  obtain ⟨goesOn, own⟩ := mem_ownCalls member
  rcases idle with ended | ⟨forward, halted⟩ | ⟨rewinding, past⟩
  · cases ended.symm.trans goesOn
  · rcases own with taking | ⟨rewinding, -⟩ | ⟨-, running, -⟩
    · exact Or.inl taking
    · cases forward.symm.trans rewinding
    · cases halted.symm.trans running
  · rcases own with taking | ⟨-, rewinds⟩ | ⟨forward, -, -⟩
    · exact Or.inl taking
    · exact Or.inr ⟨rewinds, past⟩
    · cases rewinding.symm.trans forward

theorem restores_eq_false (idle : turn.Idle) {exchange : Exchange}
    (member : exchange ∈ turn.received.machine.exchanges turn.ownCalls) :
    exchange.restores = false := by
  rcases idle.own_of_mem (Machine.call_mem_of_mem_exchanges member) with taking | ⟨-, past⟩
  · exact Exchange.restores_eq_false (by simp [taking])
  · refine Machine.restores_eq_false_of_nil past ?_ member
    intro other otherMember
    refine Exchange.executed?_eq_none ?_
    rcases idle.own_of_mem (Machine.call_mem_of_mem_exchanges otherMember) with
      taking | ⟨rewinds, -⟩
    · simp [taking]
    · simp [rewinds]

end Idle

theorem any_redraws_of_idle {turn : PlayedTurn} (idle : turn.Idle) :
    turn.exchanges.any Exchange.redraws = false := by
  refine List.any_eq_false.mpr fun exchange member => Bool.not_eq_true _ ▸ ?_
  rw [exchanges_eq] at member
  rcases List.mem_append.mp member with prompted | own
  · have silent := silent_of_mem_keyCalls prompted
    exact Exchange.redraws_eq_false (Exchange.call_ne_step_of_silent silent)
      (Exchange.restores_of_silent silent)
  · refine Exchange.redraws_eq_false ?_ (idle.restores_eq_false own)
    rcases idle.own_of_mem (Machine.call_mem_of_mem_exchanges own) with taking | ⟨rewinds, -⟩
    · simp [taking]
    · simp [rewinds]

theorem quiet_after {turn : PlayedTurn} (continues : turn.outcome.continues = true) :
    turn.after.machine.state.redraw = false := by
  rw [(shown_of_continues continues).2, Machine.takeFrame_eq]
  rfl

/-- A turn that starts without a mark presents the picture exactly if it redraws
it. -/
theorem shown_of_quiet {turn : PlayedTurn} (quiet : turn.before.machine.state.redraw = false) :
    turn.outcome.turn.shown =
      if turn.exchanges.any Exchange.redraws then [turn.after.machine.state.frame] else [] := by
  cases goesOn : turn.outcome.continues with
  | false =>
      rw [shown_of_ended goesOn, any_redraws_of_idle (Or.inl goesOn)]
      rfl
  | true =>
      obtain ⟨shownEq, machineEq⟩ := shown_of_continues goesOn
      have marked : turn.updated.state.redraw = turn.exchanges.any Exchange.redraws := by
        have after := (turn.before.machine.redraw_performAll fun call => turn.updates_of_mem).1
        rw [quiet, Bool.false_or, ← turn.any_redraws_eq] at after
        exact after
      rw [shownEq, machineEq, Machine.takeFrame_eq, marked]
      cases turn.exchanges.any Exchange.redraws <;> rfl

end PlayedTurn

/-- A session whose window shows the machine's picture. -/
structure UpToDate (shown : List Frame) (session : Session) : Prop where
  quiet : session.machine.state.redraw = false
  last : shown.getLast? = some session.machine.state.frame

namespace UpToDate

variable {shown : List Frame} {turn : PlayedTurn}

theorem snoc (upToDate : UpToDate shown turn.before)
    (continues : turn.outcome.continues = true) :
    UpToDate (shown ++ turn.outcome.turn.shown) turn.after := by
  obtain ⟨shownEq, machineEq⟩ := PlayedTurn.shown_of_continues continues
  rw [Machine.takeFrame_eq] at shownEq machineEq
  have frameEq : turn.after.machine.state.frame = turn.updated.state.frame := by
    rw [machineEq]
    rfl
  refine ⟨PlayedTurn.quiet_after continues, ?_⟩
  rw [shownEq, frameEq]
  cases pending : turn.updated.state.redraw with
  | true => exact List.getLast?_concat
  | false =>
      have kept :=
        (turn.before.machine.redraw_performAll fun call => turn.updates_of_mem).2 pending
      rw [if_neg Bool.false_ne_true, Option.toList_none, List.append_nil, upToDate.last]
      exact congrArg some kept.symm

end UpToDate

namespace Session

/-- After every turn of a session that goes on, the window shows the picture in the machine.
A turn shows it at most once, and exactly if it redrew the picture or restored a state. -/
theorem window_upToDate (config : Config) (random : RandomSource) (program : Array UInt8)
    {host : Host} {options : Options} {opening : Opening}
    (opened : launch host options ((Machine.new config random).load program).machine =
      .ok opening)
    {script : List (List Event)} {earlier later : List PlayedTurn} {turn : PlayedTurn}
    (played : opening.session.turns options.cyclesPerTurn script = earlier ++ turn :: later) :
    let shown := turn.outcome.turn.shown
    let window := opening.turn.shown ++ (earlier ++ [turn]).flatMap (·.outcome.turn.shown)
    (turn.outcome.continues = true →
        window.getLast? = some turn.after.machine.state.frame) ∧
      shown.length ≤ 1 ∧
      (shown ≠ [] ↔ ∃ exchange ∈ turn.exchanges, exchange.restores = true ∨
        ∃ word, exchange.executed? = some word ∧ word.redraws = true) ∧
      (turn.Idle → shown = []) := by
  intro shown window
  obtain ⟨⟨content, stateEq⟩, -, -, blank⟩ := start_of_launch opened
  have upToDate : UpToDate (opening.turn.shown ++ earlier.flatMap (·.outcome.turn.shown))
      turn.before := by
    refine invariant_turns
      (fun turns => UpToDate (opening.turn.shown ++ turns.flatMap (·.outcome.turn.shown))) ?_ ?_
      played
    · constructor
      · rw [stateEq]
        rfl
      · rw [stateEq, blank]
        rfl
    · intro turns turn _ continues upToDate
      rw [List.flatMap_append, List.flatMap_singleton, ← List.append_assoc]
      exact upToDate.snoc continues
  have shownEq : shown = _ := PlayedTurn.shown_of_quiet upToDate.quiet
  refine ⟨?_, ?_, ?_, ?_⟩
  · intro continues
    have after := (upToDate.snoc continues).last
    rw [List.append_assoc, ← List.flatMap_singleton (·.outcome.turn.shown) turn,
      ← List.flatMap_append] at after
    exact after
  · rw [shownEq]
    split <;> simp
  · simp only [← Exchange.redraws_iff, ← List.any_eq_true]
    rw [shownEq]
    cases turn.exchanges.any Exchange.redraws <;> simp
  · intro idle
    rw [shownEq, PlayedTurn.any_redraws_of_idle idle]
    rfl

/-- A program whose only word clears the picture. -/
def clearing : Machine :=
  ((Machine.new {} (.cycle #[])).load #[0x00, 0xE0]).machine

theorem executed?_clearing : Exchange.executed? ⟨clearing, .step⟩ = some 0x00E0 := by
  have first : #[(0x00 : UInt8), 0xE0][0]? = some 0x00 := rfl
  have second : #[(0x00 : UInt8), 0xE0][1]? = some 0xE0 := rfl
  have fetched : clearing.state.fetch = .ok 0x00E0 := State.fetch_boot first second
  exact Exchange.executed?_of_executed fetched rfl

/-- The turn that clears the picture shows it. -/
theorem window_upToDate_clearing :
    launch {} (.silent 1) clearing = .ok (silentOpening clearing) ∧
      (silentOpening clearing).session.turns 1 [[]] = [] ++ firstTurn clearing 1 :: [] ∧
      (firstTurn clearing 1).outcome.turn.shown ≠ [] := by
  have opened : launch {} (.silent 1) clearing = .ok (silentOpening clearing) :=
    launch_silent clearing 1
  have played := turns_firstTurn clearing 1
  have member := step_mem_firstTurn clearing Nat.one_ne_zero
  have known := window_upToDate {} (.cycle #[]) #[0x00, 0xE0] opened played
  exact ⟨opened, played,
    known.2.2.1.mpr ⟨_, member, Or.inr ⟨_, executed?_clearing, rfl⟩⟩⟩

end Session

end ChipEight
