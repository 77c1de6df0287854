import ChipEight.Proofs.Exchanges
import ChipEight.Proofs.InPlace.Calls

/-!
# Starting over

A machine starts over when a program is loaded and when it is reset.  Either way
its state is described part by part by `State.Fresh`, which nothing but the
program enters into.  The stored program outlives everything except a load that
succeeds, and a load that fails touches nothing.
-/

namespace ChipEight

namespace State

/-- A state in which a program is about to start and nothing else has happened. -/
structure Fresh (program : Array UInt8) (state : State) : Prop where
  register_eq : ∀ register, state.register register = 0
  index_eq : state.index = 0
  pc_eq : state.pc.toNat = Memory.programStart
  slot_eq : ∀ slot ∈ state.stack.slots, slot = 0
  depth_eq : state.stack.depth = 0
  delayTimer_eq : state.delayTimer = 0
  soundTimer_eq : state.soundTimer = 0
  glyph_eq : ∀ address < Glyph.sheet.size,
    state.memory.cells[address]? = Glyph.sheet[address]?
  program_eq : ∀ offset < program.size,
    state.memory.cells[Memory.programStart + offset]? = program[offset]?
  /-- The rest of memory lies between the glyphs and the program and behind the
  program. -/
  rest_eq : ∀ address < Memory.size, Glyph.sheet.size ≤ address →
    (address < Memory.programStart ∨ Memory.programStart + program.size ≤ address) →
      state.memory.cells[address]? = some 0
  pixel_eq : ∀ point, state.frame.pixel point = 0
  redraw_eq : state.redraw = false
  isDown_eq : ∀ key, state.keypad.isDown key = false

variable {program : Array UInt8} {state : State}

theorem fresh_boot (fits : program.size ≤ Memory.programCapacity) :
    (boot program).Fresh program where
  register_eq := by
    intro register
    simp [State.register, boot]
  index_eq := rfl
  pc_eq := rfl
  slot_eq := by
    intro slot member
    exact (Vector.mem_replicate.mp member).2
  depth_eq := rfl
  delayTimer_eq := rfl
  soundTimer_eq := rfl
  glyph_eq := by
    intro address within
    have below : address < Memory.programStart :=
      Nat.lt_of_lt_of_le within (by decide)
    have inside : address < Memory.size := Nat.lt_of_lt_of_le below (by decide)
    apply (Memory.getElem?_image program inside).trans
    rw [if_pos below, Array.getD_eq_getD_getElem?, Array.getElem?_eq_getElem within,
      Option.getD_some]
  program_eq := by
    intro offset within
    have inside : Memory.programStart + offset < Memory.size := by
      simp only [Memory.programCapacity, Memory.programStart, Memory.size] at fits ⊢
      omega
    apply (Memory.getElem?_image program inside).trans
    rw [if_neg (by omega), Nat.add_sub_cancel_left, Array.getD_eq_getD_getElem?,
      Array.getElem?_eq_getElem within, Option.getD_some]
  rest_eq := by
    intro address inside beyondGlyphs outside
    refine (Memory.getElem?_image program inside).trans (congrArg some ?_)
    by_cases below : address < Memory.programStart
    · have missing : Glyph.sheet[address]? = none := Array.getElem?_eq_none_iff.mpr beyondGlyphs
      rw [if_pos below, Array.getD_eq_getD_getElem?, missing, Option.getD_none]
    · have beyond : program.size ≤ address - Memory.programStart :=
        Nat.le_sub_of_add_le' (outside.resolve_left below)
      rw [if_neg below, Array.getD_eq_getD_getElem?, Array.getElem?_eq_none beyond,
        Option.getD_none]
  pixel_eq := Frame.pixel_blank
  redraw_eq := rfl
  isDown_eq := Keypad.isDown_released

/-- Every part of a fresh state is settled by the program. -/
theorem fresh_iff (fits : program.size ≤ Memory.programCapacity) :
    state.Fresh program ↔ state = boot program := by
  constructor
  · intro fresh
    have booted := fresh_boot fits
    have memoryEq : state.memory = (boot program).memory := by
      ext address inside
      by_cases glyph : address < Glyph.sheet.size
      · rw [fresh.glyph_eq address glyph, booted.glyph_eq address glyph]
      · by_cases outside : address < Memory.programStart ∨
            Memory.programStart + program.size ≤ address
        · rw [fresh.rest_eq address inside (Nat.le_of_not_lt glyph) outside,
            booted.rest_eq address inside (Nat.le_of_not_lt glyph) outside]
        · obtain ⟨behind, before⟩ := not_or.mp outside
          obtain ⟨offset, rfl⟩ := Nat.exists_eq_add_of_le (Nat.le_of_not_lt behind)
          have within : offset < program.size :=
            Nat.lt_of_add_lt_add_left (Nat.lt_of_not_le before)
          rw [fresh.program_eq offset within, booted.program_eq offset within]
    obtain ⟨registers, index, pc, stack, delayTimer, soundTimer, memory, frame, redraw, keypad⟩ :=
      state
    have registersEq : registers = (boot program).registers := by
      apply Vector.ext
      intro register inside
      exact (fresh.register_eq ⟨register, inside⟩).trans
        (booted.register_eq ⟨register, inside⟩).symm
    have pcEq : pc = (boot program).pc := UInt16.toNat_inj.mp fresh.pc_eq
    have stackEq : stack = (boot program).stack := by
      obtain ⟨slots, depth⟩ := stack
      have slotsEq : slots = CallStack.empty.slots := by
        apply Vector.ext
        intro slot inside
        rw [fresh.slot_eq slots[slot] (Vector.getElem_mem inside)]
        exact (Vector.getElem_replicate inside).symm
      rw [slotsEq, show depth = 0 from fresh.depth_eq]
      rfl
    have frameEq : frame = (boot program).frame := by
      apply Frame.ext_pixel
      intro point
      exact (fresh.pixel_eq point).trans (booted.pixel_eq point).symm
    have keypadEq : keypad = (boot program).keypad := by
      apply Keypad.ext_isDown
      intro key
      rw [show keypad.isDown key = false from fresh.isDown_eq key]
      exact (booted.isDown_eq key).symm
    rw [registersEq, pcEq, stackEq, frameEq, keypadEq, show memory = _ from memoryEq,
      show index = 0 from fresh.index_eq, show delayTimer = 0 from fresh.delayTimer_eq,
      show soundTimer = 0 from fresh.soundTimer_eq, show redraw = false from fresh.redraw_eq]
    rfl
  · rintro rfl
    exact fresh_boot fits

/-- A fresh state is the initial state with the program stored from its start
on. -/
theorem write_initial (fits : program.size ≤ Memory.programCapacity) :
    initial.write (UInt16.ofNat Memory.programStart) program.toList = .ok (boot program) := by
  have stored : initial.memory.write? (UInt16.ofNat Memory.programStart).toNat program.toList =
      some (.image program) := Memory.write?_image fits
  simp only [write, stored]
  rfl

end State

/-- Whether a program was loaded. -/
def Exchange.loads (exchange : Exchange) : Bool :=
  match exchange.reply with
  | .loaded (.ok _) => true
  | _ => false

theorem Exchange.program_after {exchange : Exchange} (keeps : exchange.loads = false) :
    exchange.after.program = exchange.before.program := by
  obtain ⟨before, call⟩ := exchange
  have performed := before.performs_perform call
  simp only [loads, after, reply, outcome] at keeps ⊢
  generalize (before.perform call).value = answer at performed keeps
  generalize (before.perform call).machine = after at performed
  cases performed with
  | loaded fits | loadedFrom fits => cases keeps
  | _ => rfl

namespace Machine

theorem program_performAll {machine : Machine} {calls : List Call}
    (keeps : ∀ exchange ∈ machine.exchanges calls, exchange.loads = false) :
    (machine.performAll calls).program = machine.program := by
  apply invariant_exchanges (fun later => later.program = machine.program) _ rfl
  intro exchange member same
  exact (Exchange.program_after (keeps exchange member)).trans same

theorem perform_of_unloaded {machine : Machine} {loading : Call} {error : LoadError}
    (failed : (machine.perform loading).value = .loaded (.error error)) :
    machine.perform loading = ⟨.loaded (.error error), machine, []⟩ := by
  cases loading with
  | load program =>
      simp only [perform, load] at failed ⊢
      split at failed
      · rename_i tooLarge
        cases failed
        rw [if_pos tooLarge]
      · cases failed
  | loadFrom source =>
      simp only [perform, loadFrom, load] at failed ⊢
      split at failed
      · split at failed
        · rename_i tooLarge
          cases failed
          rw [if_pos tooLarge]
        · cases failed
      · cases failed
        rfl
  | rewind =>
      simp only [perform] at failed
      split at failed <;> cases failed
  | _ => cases failed

/-- A load of a program that fits leaves a machine fresh and without a past, and so does every
reset until another load succeeds.  A load that fails leaves the machine as it was. -/
theorem fresh_after_load_and_reset {machine : Machine} (reachable : machine.Reachable)
    {program : Array UInt8} (fits : program.size ≤ Memory.programCapacity) :
    let loaded := (machine.perform (.load program)).machine
    (machine.perform (.load program)).value = .loaded (.ok program.size) ∧
      loaded.state.Fresh program ∧
      State.initial.write (UInt16.ofNat Memory.programStart) program.toList = .ok loaded.state ∧
      loaded.history.states = [] ∧
      (∀ later, (∀ exchange ∈ loaded.exchanges later, exchange.loads = false) →
        let restarted := ((loaded.performAll later).perform .reset).machine
        restarted.state = loaded.state ∧ restarted.history.states = [] ∧
          ∀ log, (Effect.outcome (Call.inPlaceAll (.load program :: (later ++ [.reset])))
            ⟨machine, log⟩).2.machine = restarted) ∧
      ∀ loading error, (machine.perform loading).value = .loaded (.error error) →
        (machine.perform loading).machine = machine ∧
          ∀ log, Effect.outcome loading.inPlace ⟨machine, log⟩ =
            (.ok (.loaded (.error error)), ⟨machine, log⟩) := by
  intro loaded
  have performed := machine.perform_load_of_fits fits
  have loadedEq : loaded = { machine with program }.reset := congrArg Outcome.machine performed
  have stateEq : loaded.state = .boot program := congrArg state loadedEq
  refine ⟨congrArg Outcome.value performed, ?_, ?_, ?_, ?_, ?_⟩
  · exact (State.fresh_iff fits).mpr stateEq
  · rw [stateEq]
    exact State.write_initial fits
  · rw [loadedEq]
    rfl
  · intro later keeps restarted
    have programEq : (loaded.performAll later).program = program := by
      rw [program_performAll keeps, loadedEq]
      rfl
    refine ⟨?_, rfl, ?_⟩
    · rw [stateEq, ← programEq]
      rfl
    · intro log
      have done := Call.outcome_inPlaceAll (.load program :: (later ++ [.reset])) ⟨machine, log⟩
        reachable.bounded
      rw [done]
      exact performAll_append loaded later [.reset]
  · intro loading error failed
    have unloaded := perform_of_unloaded failed
    refine ⟨congrArg Outcome.machine unloaded, ?_⟩
    intro log
    rw [Call.outcome_inPlace loading ⟨machine, log⟩ reachable.bounded, unloaded, List.append_nil]

/-- A load over a machine that drew, then a step and a source that cannot be
read. -/
theorem fresh_after_load_and_reset_unreadable :
    let drawn := (new {} (.cycle #[])).performAll [.load #[0xD0, 0x01], .step]
    let loaded := (drawn.perform (.load #[0x60, 0x07])).machine
    let unreadable : Call := .loadFrom [.failed "device unplugged"]
    drawn.Reachable ∧ loaded.state.Fresh #[0x60, 0x07] ∧
      ((loaded.performAll [.step, unreadable]).perform .reset).machine.state = loaded.state ∧
      (drawn.perform unreadable).machine = drawn := by
  intro drawn loaded unreadable
  have reachable : drawn.Reachable := ⟨_, _, _, rfl⟩
  have fits : #[(0x60 : UInt8), 0x07].size ≤ Memory.programCapacity := by decide
  have keeps : ∀ exchange ∈ loaded.exchanges [.step, unreadable], exchange.loads = false := by
    intro exchange member
    rcases List.mem_cons.mp member with rfl | member
    · rfl
    · obtain rfl := List.mem_singleton.mp member
      rfl
  obtain ⟨-, fresh, -, -, restarts, refuses⟩ := fresh_after_load_and_reset reachable fits
  exact ⟨reachable, fresh, (restarts _ keeps).1, (refuses unreadable _ rfl).1⟩

end Machine

end ChipEight
