import ChipEight.Proofs.Refusal
import ChipEight.Proofs.Session.ShownPicture

/-!
# Halted sessions

A fault halts a session until a state is restored.  Nothing that a session does
in the meantime bears on the fault, so that the instruction which was refused
would be refused again at any time.
-/

namespace ChipEight

namespace Exchange

/-- A fault comes from a step, which leaves the machine alone. -/
theorem step_of_fault? {exchange : Exchange} {fault : Fault}
    (faulted : exchange.fault? = some fault) :
    exchange.call = .step ∧ exchange.after = exchange.before ∧
      exchange.before.step.value = .error fault := by
  obtain ⟨before, call⟩ := exchange
  have performed := before.performs_perform call
  simp only [fault?, after, reply, outcome] at faulted ⊢
  generalize (before.perform call).value = answer at performed faulted
  generalize (before.perform call).machine = after at performed
  cases performed with
  | faulted refused =>
      cases faulted
      exact ⟨rfl, rfl, refused⟩
  | _ => cases faulted

theorem noteHalt_eq (halting? : Option Fault) (exchange : Exchange) :
    noteHalt halting? exchange =
      exchange.fault?.or (if exchange.restores then none else halting?) := by
  unfold noteHalt fault? restores
  rcases exchange.reply with _ | (_ | _) | (_ | _) | _ | _ <;> rfl

variable {exchanges : List Exchange}

/-- Without a fault, a session stays halted until a state is restored. -/
theorem isSome_foldl_noteHalt_of_unfaulted
    (unfaulted : ∀ exchange ∈ exchanges, exchange.fault? = none) (halting? : Option Fault) :
    (exchanges.foldl noteHalt halting?).isSome =
      (halting?.isSome && !exchanges.any restores) := by
  induction exchanges generalizing halting? with
  | nil => exact (Bool.and_true _).symm
  | cons exchange rest ih =>
      rw [List.foldl_cons, noteHalt_eq, unfaulted exchange List.mem_cons_self,
        ih fun other member => unfaulted other (List.mem_cons_of_mem _ member)]
      cases restored : exchange.restores <;> simp [restored]

/-- If nothing is restored, a session is halted after every fault. -/
theorem isSome_foldl_noteHalt_of_unrestored
    (unrestored : ∀ exchange ∈ exchanges, exchange.restores = false) (halting? : Option Fault) :
    (exchanges.foldl noteHalt halting?).isSome =
      (halting?.isSome || exchanges.any fun exchange => exchange.fault?.isSome) := by
  induction exchanges generalizing halting? with
  | nil => exact (Bool.or_false _).symm
  | cons exchange rest ih =>
      rw [List.foldl_cons, noteHalt_eq, unrestored exchange List.mem_cons_self,
        ih fun other member => unrestored other (List.mem_cons_of_mem _ member)]
      cases faulted : exchange.fault? <;> simp [faulted]

end Exchange

namespace Machine

/-- The next step is going to fault with the fault that halted a session, if
one did. -/
def Awaits (machine : Machine) (halting? : Option Fault) : Prop :=
  ∀ fault, halting? = some fault → machine.step.value = .error fault

theorem Awaits.congr {before after : Machine} {halting? : Option Fault}
    (awaits : before.Awaits halting?) (sameFault : after.state.fault? = before.state.fault?) :
    after.Awaits halting? := by
  intro fault halting
  rw [step_eq_error_iff, sameFault, ← step_eq_error_iff]
  exact awaits fault halting

end Machine

theorem Exchange.awaits_after (exchange : Exchange) {halting? : Option Fault}
    (awaits : exchange.before.Awaits halting?)
    (goesOn : exchange.call.updates = true ∨ exchange.call = .takeFrame) :
    exchange.after.Awaits (noteHalt halting? exchange) := by
  obtain ⟨before, call⟩ := exchange
  have performed := before.performs_perform call
  simp only [noteHalt, after, reply, outcome] at awaits goesOn ⊢
  generalize (before.perform call).value = answer at performed
  generalize (before.perform call).machine = after at performed
  cases performed with
  | executed fetched executed =>
      -- The step would have faulted, had the session been halted.
      intro fault halting
      have refused := awaits fault halting
      rw [Machine.step_of_executed fetched executed] at refused
      cases refused
  | faulted refused =>
      intro fault halting
      cases halting
      exact refused
  | rewound past =>
      intro fault halting
      cases halting
  | ticked => exact awaits.congr (State.fault?_congr rfl rfl rfl rfl)
  | held down named => exact awaits.congr (State.fault?_congr rfl rfl rfl rfl)
  | taken pending => exact awaits.congr (State.fault?_congr rfl rfl rfl rfl)
  | exhausted | ignored | upToDate => exact awaits
  | cleared | reset | loaded | tooLarge | loadedFrom | refusedFrom => simp [Call.updates] at goesOn

/-- The fault that halts a session keeps waiting along a run. -/
theorem Machine.awaits_performAll {machine : Machine} {calls : List Call}
    {halting? : Option Fault} (awaits : machine.Awaits halting?)
    (goesOn : ∀ call ∈ calls, call.updates = true ∨ call = .takeFrame) :
    (machine.performAll calls).Awaits
      ((machine.exchanges calls).foldl Exchange.noteHalt halting?) := by
  induction calls generalizing machine halting? with
  | nil => exact awaits
  | cons call calls ih =>
      refine ih ?_ fun later member => goesOn later (List.mem_cons_of_mem _ member)
      exact Exchange.awaits_after ⟨machine, call⟩ awaits
        (goesOn call List.mem_cons_self)

/-- An exchange that passes a key on, fails to rewind or finds the picture
presented already changes at most the keypad. -/
theorem Exchange.exists_keypad_of_unrestored {exchange : Exchange}
    (waiting : (∃ byte down, exchange.call = .setKey byte down) ∨ exchange.call = .takeFrame ∨
      exchange.call = .rewind)
    (unrestored : exchange.restores = false) (quiet : exchange.before.state.redraw = false) :
    ∃ keypad, exchange.after =
      { exchange.before with state := { exchange.before.state with keypad } } := by
  obtain ⟨before, call⟩ := exchange
  have performed := before.performs_perform call
  simp only [restores, after, reply, outcome] at waiting unrestored quiet ⊢
  generalize (before.perform call).value = answer at performed unrestored
  generalize (before.perform call).machine = after at performed
  cases performed with
  | held down named => exact ⟨_, rfl⟩
  | taken pending => cases quiet.symm.trans pending
  | rewound past => cases unrestored
  | exhausted | ignored | upToDate => exact ⟨before.state.keypad, rfl⟩
  | _ => simp at waiting

/-- Attempts come to an end at a fault, and leave the machine there. -/
theorem Machine.performAll_attempts_of_fault? {machine : Machine} {cycles : Nat}
    {exchange : Exchange} {fault : Fault}
    (member : exchange ∈ machine.exchanges (machine.attempts .step cycles))
    (faulted : exchange.fault? = some fault) :
    machine.performAll (machine.attempts .step cycles) = exchange.before := by
  induction cycles generalizing machine with
  | zero => cases member
  | succ cycles ih =>
      cases succeeded : (machine.perform .step).value.succeeded with
      | false =>
          rw [attempts_of_failed cycles succeeded] at member ⊢
          obtain rfl := List.mem_singleton.mp member
          exact (Exchange.step_of_fault? faulted).2.1
      | true =>
          rw [attempts_of_succeeded cycles succeeded] at member ⊢
          rcases List.mem_cons.mp member with rfl | member
          · have refused := (Exchange.step_of_fault? faulted).2.2
            rw [perform, refused] at succeeded
            cases succeeded
          · exact ih member

theorem Exchange.fault?_eq_none {exchange : Exchange} (other : exchange.call ≠ .step) :
    exchange.fault? = none := by
  refine Option.eq_none_iff_forall_ne_some.mpr fun fault faulted => ?_
  exact other (step_of_fault? faulted).1

theorem Exchange.notices_eq_nil {exchange : Exchange}
    (quiet : exchange.call = .takeFrame ∨ exchange.call = .rewind) : exchange.notices = [] := by
  obtain ⟨before, call⟩ := exchange
  rcases quiet with rfl | rfl
  · simp [notices, fault?, reply, outcome, Machine.perform]
  · cases past : before.history.states with
    | nil =>
        simp [notices, fault?, reply, outcome, Machine.perform_rewind_of_nil past]
    | cons newest older =>
        simp [notices, fault?, reply, outcome, Machine.perform_rewind_of_cons past]

namespace PlayedTurn

variable {turn : PlayedTurn}

theorem goesOn_of_mem_calls {call : Call} (member : call ∈ turn.calls) :
    call.updates = true ∨ call = .takeFrame := by
  cases goesOn : turn.outcome.continues with
  | false =>
      rw [calls_of_ended goesOn] at member
      exact Or.inl (updates_of_mem member)
  | true =>
      rw [calls_of_continues goesOn] at member
      rcases List.mem_append.mp member with updating | taking
      · exact Or.inl (updates_of_mem updating)
      · exact Or.inr (List.mem_singleton.mp taking)

theorem call_of_halted (halted : turn.before.halted = true) {call : Call}
    (member : call ∈ turn.calls) :
    (∃ byte down, call = .setKey byte down) ∨ call = .takeFrame ∨ call = .rewind := by
  rw [calls_eq] at member
  rcases List.mem_append.mp member with prompted | own
  · exact Or.inl (key_of_mem_keyCalls prompted)
  · rcases (mem_ownCalls own).2 with taking | ⟨-, rewinds⟩ | ⟨-, running, -⟩
    · exact Or.inr (Or.inl taking)
    · exact Or.inr (Or.inr rewinds)
    · rw [halted_received, halted] at running
      cases running

/-- A turn of a session that was halted before. -/
structure Frozen (turn : PlayedTurn) : Prop where
  step_not_mem : .step ∉ turn.calls
  tick_not_mem : .tick ∉ turn.calls
  log_eq : turn.outcome.turn.log = []
  halted_eq : turn.after.halted = !turn.restores
  shown_eq : turn.restores = false → turn.outcome.turn.shown = []
  machine_eq : turn.restores = false → ∃ keypad, turn.after.machine =
    { turn.before.machine with state := { turn.before.machine.state with keypad } }

theorem step_not_mem_of_halted (halted : turn.before.halted = true) : .step ∉ turn.calls := by
  intro steps
  rcases call_of_halted halted steps with ⟨byte, down, key⟩ | taking | rewinds <;> contradiction

theorem tick_not_mem_of_halted (halted : turn.before.halted = true) : .tick ∉ turn.calls := by
  intro ticks
  rcases call_of_halted halted ticks with ⟨byte, down, key⟩ | taking | rewinds <;> contradiction

theorem call_ne_step_of_halted (halted : turn.before.halted = true) {exchange : Exchange}
    (member : exchange ∈ turn.exchanges) : exchange.call ≠ .step := by
  intro steps
  exact step_not_mem_of_halted halted (steps ▸ Machine.call_mem_of_mem_exchanges member)

theorem log_of_halted (halted : turn.before.halted = true) : turn.outcome.turn.log = [] := by
  rw [log_eq, exchanges_eq, List.flatMap_append,
    Exchange.flatMap_notices_of_silent fun exchange => silent_of_mem_keyCalls, List.nil_append]
  refine List.flatMap_eq_nil_iff.mpr fun exchange member => Exchange.notices_eq_nil ?_
  rcases (mem_ownCalls (Machine.call_mem_of_mem_exchanges member)).2 with
    taking | ⟨-, rewinds⟩ | ⟨-, running, -⟩
  · exact Or.inl taking
  · exact Or.inr rewinds
  · rw [halted_received, halted] at running
    cases running

theorem halted_of_halted (halted : turn.before.halted = true) :
    turn.after.halted = !turn.restores := by
  have unfaulted : ∀ exchange ∈ turn.exchanges, exchange.fault? = none :=
    fun exchange member => Exchange.fault?_eq_none (call_ne_step_of_halted halted member)
  -- It does not matter which fault halted the session.
  have known : turn.before.halted = (some (Fault.stackUnderflow 0)).isSome := halted
  rw [halted_after turn known, Exchange.isSome_foldl_noteHalt_of_unfaulted unfaulted,
    Option.isSome_some, Bool.true_and, restores]

theorem frozen_of_halted (halted : turn.before.halted = true)
    (quiet : turn.before.machine.state.redraw = false) : turn.Frozen where
  step_not_mem := step_not_mem_of_halted halted
  tick_not_mem := tick_not_mem_of_halted halted
  log_eq := log_of_halted halted
  halted_eq := halted_of_halted halted
  shown_eq := by
    intro unrestored
    have undrawn : turn.exchanges.any Exchange.redraws = false := by
      refine List.any_eq_false.mpr fun exchange member => Bool.not_eq_true _ ▸ ?_
      refine Exchange.redraws_eq_false (call_ne_step_of_halted halted member) ?_
      simpa using List.any_eq_false.mp unrestored exchange member
    rw [shown_of_quiet quiet, undrawn]
    rfl
  machine_eq := by
    intro unrestored
    rw [machine_after]
    refine Machine.invariant_exchanges (fun machine => ∃ keypad, machine =
      { turn.before.machine with state := { turn.before.machine.state with keypad } }) ?_
      ⟨turn.before.machine.state.keypad, rfl⟩
    rintro exchange member ⟨keypad, beforeEq⟩
    have called := call_of_halted halted (Machine.call_mem_of_mem_exchanges member)
    obtain ⟨changed, afterEq⟩ := exchange.exists_keypad_of_unrestored called
      (by simpa using List.any_eq_false.mp unrestored exchange member)
      (by rw [beforeEq]; exact quiet)
    refine ⟨changed, ?_⟩
    rw [afterEq, beforeEq]

/-- A turn in which a machine comes to a fault. -/
structure FaultsAt (turn : PlayedTurn) (stopped : Machine) (fault : Fault) : Prop where
  running : turn.before.halted = false
  refused : stopped.step.value = .error fault
  calls_eq : ∃ attempted, turn.calls = attempted ++ [.tick, .takeFrame] ∧ .tick ∉ attempted ∧
    turn.before.machine.performAll attempted = stopped
  machine_eq : turn.after.machine = stopped.tick.clearRedraw
  shown_eq : turn.outcome.turn.shown =
    if stopped.state.redraw then [stopped.state.frame] else []
  halted : turn.after.halted = true

/-- A turn with a fault executes until then. -/
theorem running_of_fault? {exchange : Exchange} {fault : Fault}
    (member : exchange ∈ turn.exchanges) (faulted : exchange.fault? = some fault) :
    (turn.outcome.continues = true ∧ turn.received.rewinding = false ∧
        turn.received.halted = false) ∧
      ∃ attempted, turn.calls = attempted ++ [.tick, .takeFrame] ∧ .tick ∉ attempted ∧
        .rewind ∉ attempted ∧ turn.before.machine.performAll attempted = exchange.before := by
  obtain ⟨steps, -, -⟩ := Exchange.step_of_fault? faulted
  have own : exchange ∈ turn.received.machine.exchanges turn.ownCalls := by
    rw [turn.exchanges_eq] at member
    rcases List.mem_append.mp member with prompted | own
    · exact absurd steps (Exchange.call_ne_step_of_silent (silent_of_mem_keyCalls prompted))
    · exact own
  obtain ⟨continues, onward, running⟩ : turn.outcome.continues = true ∧
      turn.received.rewinding = false ∧ turn.received.halted = false := by
    have called := mem_ownCalls (Machine.call_mem_of_mem_exchanges own)
    rw [steps] at called
    simpa using called
  have ownEq := ownCalls_of_running continues onward running
  have attempted : ∀ call ∈ turn.keyCalls ++ turn.received.machine.attempts .step turn.cycles,
      call = .step ∨ ∃ byte down, call = .setKey byte down := by
    intro call called
    rcases List.mem_append.mp called with prompted | attempted
    · exact Or.inr (key_of_mem_keyCalls prompted)
    · exact Or.inl (Machine.eq_of_mem_attempts attempted)
  refine ⟨⟨continues, onward, running⟩,
    turn.keyCalls ++ turn.received.machine.attempts .step turn.cycles, ?_, ?_, ?_, ?_⟩
  · rw [calls_eq, ownEq, List.append_assoc]
  · intro ticks
    simpa using attempted _ ticks
  · intro rewinds
    simpa using attempted _ rewinds
  · rw [Machine.performAll_append, ← machine_received]
    refine Machine.performAll_attempts_of_fault? ?_ faulted
    rw [ownEq, Machine.exchanges_append] at own
    rcases List.mem_append.mp own with stepping | closing
    · exact stepping
    · have other := Machine.call_mem_of_mem_exchanges closing
      rw [steps] at other
      simp at other

theorem faultsAt_of_fault? {halting? : Option Fault}
    (known : turn.before.halted = halting?.isSome) {exchange : Exchange} {fault : Fault}
    (member : exchange ∈ turn.exchanges) (faulted : exchange.fault? = some fault) :
    turn.FaultsAt exchange.before fault := by
  obtain ⟨⟨continues, onward, running⟩, attempted, callsEq, unticked, unrewound, stoppedEq⟩ :=
    running_of_fault? member faulted
  have updatedEq : turn.updated = exchange.before.tick := by
    have updatingEq : turn.updating = attempted ++ [.tick] := by
      have whole : turn.updating ++ [.takeFrame] = attempted ++ [.tick] ++ [.takeFrame] := by
        rw [← calls_of_continues continues, callsEq, List.append_assoc]
        rfl
      exact List.append_cancel_right whole
    rw [updated, updatingEq, Machine.performAll_append, stoppedEq]
    rfl
  obtain ⟨shownEq, machineEq⟩ := shown_of_continues continues
  rw [updatedEq, Machine.takeFrame_eq] at shownEq machineEq
  refine ⟨?_, (Exchange.step_of_fault? faulted).2.2, ⟨attempted, callsEq, unticked, stoppedEq⟩,
    machineEq, ?_, ?_⟩
  · rw [← halted_received, running]
  · rw [shownEq]
    show (if exchange.before.state.redraw then some exchange.before.state.frame else none).toList =
      if exchange.before.state.redraw then [exchange.before.state.frame] else []
    cases exchange.before.state.redraw <;> rfl
  · have unrestored : ∀ other ∈ turn.exchanges, other.restores = false := by
      intro other otherMember
      refine Exchange.restores_eq_false fun rewinds => ?_
      have called := Machine.call_mem_of_mem_exchanges otherMember
      rw [callsEq, rewinds] at called
      simp [unrewound] at called
    rw [halted_after turn known, Exchange.isSome_foldl_noteHalt_of_unrestored unrestored,
      Bool.or_eq_true, List.any_eq_true]
    exact Or.inr ⟨exchange, member, by rw [faulted]; rfl⟩

theorem exhausted_of_halted (halted : turn.before.halted = true)
    (past : turn.before.machine.history.states = []) :
    turn.restores = false ∧ turn.after.machine.history.states = [] := by
  have unexecuted : ∀ exchange ∈ turn.exchanges, exchange.executed? = none :=
    fun exchange member => Exchange.executed?_eq_none (call_ne_step_of_halted halted member)
  constructor
  · refine List.any_eq_false.mpr fun exchange member => ?_
    simp [Machine.restores_eq_false_of_nil past unexecuted member]
  · refine List.eq_nil_iff_forall_not_mem.mpr fun state recorded => ?_
    rw [machine_after] at recorded
    rcases Machine.mem_history_performAll recorded with old | ⟨exchange, member, executed, -⟩
    · rw [past] at old
      cases old
    · rw [unexecuted exchange member] at executed
      cases executed

end PlayedTurn

/-- The fault that halts a session after the turns that were played. -/
def haltingFault? (turns : List PlayedTurn) : Option Fault :=
  (turns.flatMap PlayedTurn.exchanges).foldl Exchange.noteHalt none

/-- A session whose flag and machine agree with the turns that were played. -/
structure HaltKnown (turns : List PlayedTurn) (session : Session) : Prop where
  halted : session.halted = (haltingFault? turns).isSome
  awaits : session.machine.Awaits (haltingFault? turns)

theorem HaltKnown.snoc {turns : List PlayedTurn} {turn : PlayedTurn}
    (known : HaltKnown turns turn.before) : HaltKnown (turns ++ [turn]) turn.after := by
  have haltingEq : haltingFault? (turns ++ [turn]) =
      turn.exchanges.foldl Exchange.noteHalt (haltingFault? turns) := by
    simp only [haltingFault?, List.flatMap_append, List.flatMap_singleton, List.foldl_append]
  constructor
  · rw [haltingEq]
    exact turn.halted_after known.halted
  · rw [haltingEq, turn.machine_after]
    exact Machine.awaits_performAll known.awaits fun call => PlayedTurn.goesOn_of_mem_calls

namespace Session

/-- A halted session with an empty history stays halted forever. -/
theorem halted_of_exhausted {session : Session} {cycles : Nat} {script : List (List Event)}
    {turn : PlayedTurn} {later : List PlayedTurn}
    (played : session.turns cycles script = turn :: later) (halted : session.halted = true)
    (past : session.machine.history.states = []) {next : PlayedTurn}
    (member : next ∈ turn :: later) :
    next.before.halted = true ∧ next.before.machine.history.states = [] := by
  obtain ⟨earlier, rest, split⟩ := List.append_of_mem member
  rw [split] at played
  refine invariant_turns
    (fun _ session => session.halted = true ∧ session.machine.history.states = []) ⟨halted, past⟩
    ?_ played
  rintro earlier turn - - ⟨halted, past⟩
  obtain ⟨unrestored, stillPast⟩ := PlayedTurn.exhausted_of_halted halted past
  refine ⟨?_, stillPast⟩
  rw [PlayedTurn.halted_of_halted halted, unrestored]
  rfl

/-- A session is halted exactly if there was a fault since a state was restored last, and the
next step would fault the same.  Until it restores a state, it does nothing but move keys. -/
theorem halted_until_restored (config : Config) (random : RandomSource) (program : Array UInt8)
    {host : Host} {options : Options} {opening : Opening}
    (opened : launch host options ((Machine.new config random).load program).machine =
      .ok opening)
    {script : List (List Event)} {earlier later : List PlayedTurn} {turn : PlayedTurn}
    (played : opening.session.turns options.cyclesPerTurn script = earlier ++ turn :: later) :
    turn.before.halted = (haltingFault? earlier).isSome ∧
      turn.after.halted = (haltingFault? (earlier ++ [turn])).isSome ∧
      (∀ fault, haltingFault? (earlier ++ [turn]) = some fault →
        turn.after.machine.step.value = .error fault) ∧
      (∀ exchange ∈ turn.exchanges, ∀ fault, exchange.fault? = some fault →
        turn.FaultsAt exchange.before fault) ∧
      (turn.before.halted = true → turn.Frozen) ∧
      (turn.before.halted = true → turn.before.machine.history.states = [] →
        ∀ next ∈ turn :: later,
          next.restores = false ∧ next.after.halted = true ∧ .step ∉ next.calls) := by
  obtain ⟨⟨content, stateEq⟩, -, running, -⟩ := start_of_launch opened
  obtain ⟨known, quiet⟩ : HaltKnown earlier turn.before ∧
      turn.before.machine.state.redraw = false := by
    refine invariant_turns
      (fun turns session => HaltKnown turns session ∧ session.machine.state.redraw = false) ?_ ?_
      played
    · refine ⟨⟨running, ?_⟩, ?_⟩
      · intro fault halting
        cases halting
      · rw [stateEq]
        rfl
    · rintro turns turn - continues ⟨known, -⟩
      exact ⟨known.snoc, PlayedTurn.quiet_after continues⟩
  refine ⟨known.halted, known.snoc.halted, known.snoc.awaits, ?_, ?_, ?_⟩
  · intro exchange member fault faulted
    exact PlayedTurn.faultsAt_of_fault? known.halted member faulted
  · intro halted
    exact PlayedTurn.frozen_of_halted halted quiet
  · intro halted past next member
    obtain ⟨rest, suffix⟩ := exists_script_of_turns played
    obtain ⟨stillHalted, stillPast⟩ := halted_of_exhausted suffix halted past member
    have unrestored := (PlayedTurn.exhausted_of_halted stillHalted stillPast).1
    refine ⟨unrestored, ?_, PlayedTurn.step_not_mem_of_halted stillHalted⟩
    rw [PlayedTurn.halted_of_halted stillHalted, unrestored]
    rfl

/-- A program whose only word returns from no call. -/
def returning : Machine :=
  ((Machine.new {} (.cycle #[])).load #[0x00, 0xEE]).machine

theorem fault?_returning :
    Exchange.fault? ⟨returning, .step⟩ = some (.stackUnderflow 0x200) := by
  have first : #[(0x00 : UInt8), 0xEE][0]? = some 0x00 := rfl
  have second : #[(0x00 : UInt8), 0xEE][1]? = some 0xEE := rfl
  have fetched : returning.state.fetch = .ok 0x00EE := State.fetch_boot first second
  have refused : returning.step.value = .error (.stackUnderflow 0x200) :=
    congrArg Outcome.value (Machine.step_of_refused fetched rfl)
  exact Exchange.fault?_of_refused refused

/-- The turn that returns from no call halts the session. -/
theorem halted_until_restored_returning :
    launch {} (.silent 1) returning = .ok (silentOpening returning) ∧
      (silentOpening returning).session.turns 1 [[]] = [] ++ firstTurn returning 1 :: [] ∧
      (firstTurn returning 1).FaultsAt returning (.stackUnderflow 0x200) := by
  have opened : launch {} (.silent 1) returning = .ok (silentOpening returning) :=
    launch_silent returning 1
  have played := turns_firstTurn returning 1
  have member := step_mem_firstTurn returning Nat.one_ne_zero
  have known := halted_until_restored {} (.cycle #[]) #[0x00, 0xEE] opened played
  exact ⟨opened, played, known.2.2.2.1 _ member _ fault?_returning⟩

end Session

end ChipEight
