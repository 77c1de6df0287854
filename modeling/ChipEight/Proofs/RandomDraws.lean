import ChipEight.Proofs.Decoding
import ChipEight.Proofs.Exchanges
import ChipEight.Proofs.InPlace.Calls

/-!
# Random draws

The random source belongs to no state, so that neither rewinding nor starting
over turns it back.  Every random load that is executed draws the next word, and
nothing else draws one: the loads of a whole run draw the words of the source in
order, also the loads that were rewound later.
-/

namespace ChipEight

namespace RandomSource

/-- The source after further words were drawn. -/
def advanceBy (source : RandomSource) (count : Nat) : RandomSource :=
  { source with drawn := source.drawn + count }

theorem advanceBy_advance (source : RandomSource) (count : Nat) :
    source.advance.advanceBy count = source.advanceBy (count + 1) := by
  simp only [advanceBy, advance, Nat.add_assoc, Nat.add_comm 1]

theorem toNat_byte (source : RandomSource) :
    source.byte.toNat = (source.words source.drawn).toNat % 256 :=
  UInt32.toNat_toUInt8 _

end RandomSource

namespace Exchange

/-- Whether a random load was executed. -/
def draws (exchange : Exchange) : Bool :=
  exchange.executed?.any Word.isRandom

variable {exchange : Exchange}

theorem draws_of_executed? {word : Word} (executed : exchange.executed? = some word) :
    exchange.draws = word.isRandom := by
  rw [draws, executed, Option.any_some]

theorem random_after_eq (exchange : Exchange) :
    exchange.after.random =
      if exchange.draws then exchange.before.random.advance else exchange.before.random := by
  have sameWords : Word.isRandom = Word.drawsRandom :=
    funext fun word => word.drawsRandom_eq.symm
  rw [random_after, draws, sameWords]

/-- A random load leaves the masked byte of the next word in its register. -/
theorem exists_of_draws (draws : exchange.draws = true) :
    ∃ word, exchange.executed? = some word ∧ word.isRandom = true ∧
      exchange.after.state.register word.x = exchange.before.random.byte &&& word.byte := by
  obtain ⟨word, recorded, random⟩ := (Option.any_eq_true _ _).mp draws
  refine ⟨word, recorded, random, ?_⟩
  obtain ⟨-, -, state, executed, afterEq⟩ := exists_of_executed? recorded
  simp only [Word.execute, Word.decode_of_isRandom random, Instruction.execute,
    Except.ok.injEq] at executed
  rw [afterEq, show (exchange.before.advance word state).state = state from rfl, ← executed]
  exact State.register_setRegister_self ..

end Exchange

namespace Machine

theorem draws_step_of_isRandom {machine : Machine} {word : Word}
    (fetched : machine.state.fetch = .ok word) (random : word.isRandom = true) :
    Exchange.draws ⟨machine, .step⟩ = true := by
  have executed : word.execute machine.config.dialect machine.random.byte machine.state =
      .ok (machine.state.next.setRegister word.x (machine.random.byte &&& word.byte)) := by
    simp only [Word.execute, Word.decode_of_isRandom random, Instruction.execute]
  rw [Exchange.draws_of_executed? (Exchange.executed?_of_executed fetched executed), random]

/-- The exchanges of a run that execute random loads. -/
def draws (machine : Machine) (calls : List Call) : List Exchange :=
  (machine.exchanges calls).filter Exchange.draws

theorem draws_cons_of_draws {machine : Machine} {call : Call} {calls : List Call}
    (draws : Exchange.draws ⟨machine, call⟩ = true) :
    machine.draws (call :: calls) =
      ⟨machine, call⟩ :: (machine.perform call).machine.draws calls :=
  List.filter_cons_of_pos draws

theorem draws_cons_of_skips {machine : Machine} {call : Call} {calls : List Call}
    (skips : ¬Exchange.draws ⟨machine, call⟩ = true) :
    machine.draws (call :: calls) = (machine.perform call).machine.draws calls :=
  List.filter_cons_of_neg skips

theorem random_perform_of_draws {machine : Machine} {call : Call}
    (draws : Exchange.draws ⟨machine, call⟩ = true) :
    (machine.perform call).machine.random = machine.random.advance :=
  (Exchange.random_after_eq ⟨machine, call⟩).trans (if_pos draws)

theorem random_perform_of_skips {machine : Machine} {call : Call}
    (skips : ¬Exchange.draws ⟨machine, call⟩ = true) :
    (machine.perform call).machine.random = machine.random :=
  (Exchange.random_after_eq ⟨machine, call⟩).trans (if_neg skips)

/-- A run draws one word for each of its random loads. -/
theorem random_performAll_eq (machine : Machine) (calls : List Call) :
    (machine.performAll calls).random =
      machine.random.advanceBy (machine.draws calls).length := by
  induction calls generalizing machine with
  | nil => rfl
  | cons call calls ih =>
      apply (ih (machine.perform call).machine).trans
      by_cases draws : Exchange.draws ⟨machine, call⟩ = true
      · rw [draws_cons_of_draws draws, random_perform_of_draws draws, List.length_cons,
          RandomSource.advanceBy_advance]
      · rw [draws_cons_of_skips draws, random_perform_of_skips draws]

theorem random_before_of_draws {machine : Machine} {calls : List Call} {number : Nat}
    {exchange : Exchange} (found : (machine.draws calls)[number]? = some exchange) :
    exchange.before.random = machine.random.advanceBy number := by
  induction calls generalizing machine number with
  | nil => cases found
  | cons call calls ih =>
      by_cases draws : Exchange.draws ⟨machine, call⟩ = true
      · rw [draws_cons_of_draws draws] at found
        cases number with
        | zero =>
            cases found
            rfl
        | succ number =>
            rw [ih found, random_perform_of_draws draws, RandomSource.advanceBy_advance]
      · rw [draws_cons_of_skips draws] at found
        rw [ih found, random_perform_of_skips draws]

/-- A random load that is rewound and executed again draws again. -/
theorem random_performAll_of_redone {machine : Machine} {word : Word}
    (fetched : machine.state.fetch = .ok word) (random : word.isRandom = true)
    (remembers : 0 < machine.config.history) :
    (machine.performAll [.step, .rewind, .step]).random = machine.random.advance.advance := by
  have first := draws_step_of_isRandom fetched random
  obtain ⟨drawing, executed, -, -⟩ := Exchange.exists_of_draws first
  obtain ⟨-, -, state, -, stepEq⟩ := Exchange.exists_of_executed? executed
  obtain ⟨older, past⟩ :=
    History.exists_states_record machine.history remembers machine.state
  have stepped : (machine.perform .step).machine = machine.advance drawing state := stepEq
  have undone := @perform_rewind_of_cons (machine.advance drawing state) _ _ past
  have refetched : ((machine.advance drawing state).perform .rewind).machine.state.fetch =
      .ok word := by
    rw [undone, ← fetched]
    rfl
  have second := draws_step_of_isRandom refetched random
  simp only [performAll, List.foldl_cons, List.foldl_nil, stepped]
  rw [random_perform_of_draws second, undone, ← random_perform_of_draws first, stepped]

/-- Whatever a new machine is asked, in place or as a whole, its random loads draw the words
of the source in order, one each, also those that are rewound or forgotten later. -/
theorem draws_in_order (config : Config) (words : Nat → UInt32) (calls : List Call) :
    let fresh := new config { words }
    let draws := fresh.draws calls
    (fresh.performAll calls).random = { words, drawn := draws.length } ∧
      (Effect.outcome (Call.inPlaceAll calls) ⟨fresh, []⟩).2.machine = fresh.performAll calls ∧
      ∀ number : Fin draws.length, ∃ word,
        draws[number].call = .step ∧
          draws[number].executed? = some word ∧ word.isRandom = true ∧
          draws[number].before.random.drawn = number ∧
          draws[number].after.random.drawn = number + 1 ∧
          (draws[number].after.state.register word.x).toNat =
            (words number).toNat % 256 &&& word.byte.toNat := by
  intro fresh draws
  refine ⟨?_, ?_, ?_⟩
  · rw [random_performAll_eq]
    simp only [fresh, new, RandomSource.advanceBy, Nat.zero_add, draws]
  · rw [Call.outcome_inPlaceAll calls ⟨fresh, []⟩ (bounded_new config _)]
  · intro number
    have found : draws[number.val]? = some draws[number] := List.getElem?_eq_getElem number.isLt
    have position : draws[number].before.random = { words, drawn := number } := by
      rw [random_before_of_draws found]
      simp only [fresh, new, RandomSource.advanceBy, Nat.zero_add]
    have drawing : draws[number].draws = true :=
      (List.mem_filter.mp (List.getElem_mem number.isLt)).2
    obtain ⟨word, executed, random, loaded⟩ := Exchange.exists_of_draws drawing
    refine ⟨word, (Exchange.exists_of_executed? executed).1, executed, random, ?_, ?_, ?_⟩
    · rw [position]
    · rw [Exchange.random_after_eq, if_pos drawing, position]
      rfl
    · rw [loaded, UInt8.toNat_and, RandomSource.toNat_byte, position]

theorem random_performAll_of_load (machine : Machine) {program : Array UInt8} {word : Word}
    (fits : program.size ≤ Memory.programCapacity)
    (fetched : (State.boot program).fetch = .ok word) (random : word.isRandom = true)
    (remembers : 0 < machine.config.history) :
    (machine.performAll [.load program, .step, .rewind, .step]).random =
      machine.random.advance.advance := by
  have restarted : machine.performAll [.load program] = { machine with program }.reset :=
    congrArg Outcome.machine (machine.perform_load_of_fits fits)
  have appended := machine.performAll_append [.load program] [.step, .rewind, .step]
  apply (congrArg Machine.random appended).trans
  rw [restarted]
  have refetched : { machine with program }.reset.state.fetch = .ok word := fetched
  have stillRemembers : 0 < { machine with program }.reset.config.history := remembers
  exact random_performAll_of_redone refetched random stillRemembers

/-- A random load that is rewound and executed again has drawn two words. -/
theorem draws_in_order_redone :
    let fresh := new {} { words := UInt32.ofNat }
    let calls : List Call := [.load #[0xC0, 0xFF], .step, .rewind, .step]
    (fresh.performAll calls).random = { words := UInt32.ofNat, drawn := 2 } ∧
      (fresh.draws calls).length = 2 := by
  intro fresh calls
  have fits : #[(0xC0 : UInt8), 0xFF].size ≤ Memory.programCapacity := by decide
  have first : #[(0xC0 : UInt8), 0xFF][0]? = some 0xC0 := rfl
  have second : #[(0xC0 : UInt8), 0xFF][1]? = some 0xFF := rfl
  have fetched : (State.boot #[0xC0, 0xFF]).fetch = .ok 0xC0FF := State.fetch_boot first second
  have remembers : 0 < fresh.config.history := by decide
  have drawn : (fresh.performAll calls).random = { words := UInt32.ofNat, drawn := 2 } :=
    random_performAll_of_load fresh fits fetched rfl remembers
  obtain ⟨counted, -, -⟩ := draws_in_order {} UInt32.ofNat calls
  refine ⟨drawn, ?_⟩
  exact congrArg RandomSource.drawn (counted.symm.trans drawn)

end Machine

end ChipEight
