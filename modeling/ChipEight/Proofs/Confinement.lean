import ChipEight.Proofs.Decoding
import ChipEight.Proofs.InPlace.Calls
import ChipEight.Proofs.Refusal

/-!
# What a word leaves alone

A state is a collection of locations: registers, cells of memory, slots of the
call stack and so on.  The digits of a word tell which of them it can write, and
whatever it does, all others hold after it what they held before.
-/

namespace ChipEight

/-- The places of a state that hold a value, apart from the program counter. -/
inductive Location where
  | register (number : Register)
  | cell (address : Nat)
  | index
  /-- How many slots of the call stack are in use. -/
  | depth
  | slot (number : Nat)
  | delayTimer
  | soundTimer
  | picture
  /-- Whether the picture is to be presented. -/
  | mark
  | keypad

theorem CallStack.getElem?_slots_of_push? {stack pushed : CallStack} {address : UInt16}
    (accepted : stack.push? address = some pushed) {number : Nat}
    (different : stack.depth ≠ number) : pushed.slots[number]? = stack.slots[number]? := by
  unfold push? at accepted
  split at accepted
  · cases accepted
    exact Vector.getElem?_set_ne ‹_› different
  · cases accepted

namespace Location

/-- A location holds the same value in two states. -/
def Same (before after : State) : Location → Prop
  | register number => after.register number = before.register number
  | cell address => after.memory.cells[address]? = before.memory.cells[address]?
  | index => after.index = before.index
  | depth => after.stack.depth = before.stack.depth
  | slot number => after.stack.slots[number]? = before.stack.slots[number]?
  | delayTimer => after.delayTimer = before.delayTimer
  | soundTimer => after.soundTimer = before.soundTimer
  | picture => after.frame = before.frame
  | mark => after.redraw = before.redraw
  | keypad => after.keypad = before.keypad

variable {location : Location} {before between after state : State}

theorem Same.trans (first : location.Same before between) (second : location.Same between after) :
    location.Same before after := by
  cases location <;> exact Eq.trans second first

/-- The locations make up a state, together with the program counter. -/
theorem eq_of_same (same : ∀ location : Location, location.Same before after) :
    after = { before with pc := after.pc } := by
  obtain ⟨registers, index, pc, ⟨slots, depth⟩, delayTimer, soundTimer, memory, frame, redraw,
    keypad⟩ := after
  have registersEq : registers = before.registers :=
    Vector.ext fun number inside => same (.register ⟨number, inside⟩)
  have slotsEq : slots = before.stack.slots := by
    apply Vector.ext
    intro number inside
    simpa [Same, inside] using same (.slot number)
  have memoryEq : memory = before.memory :=
    Memory.ext_getElem? fun address _ => same (.cell address)
  have indexEq : index = before.index := same .index
  have depthEq : depth = before.stack.depth := same .depth
  have delayEq : delayTimer = before.delayTimer := same .delayTimer
  have soundEq : soundTimer = before.soundTimer := same .soundTimer
  have frameEq : frame = before.frame := same .picture
  have redrawEq : redraw = before.redraw := same .mark
  have keypadEq : keypad = before.keypad := same .keypad
  subst registersEq slotsEq memoryEq indexEq depthEq delayEq soundEq frameEq redrawEq keypadEq
  rfl

theorem same_pc (state : State) (pc : UInt16) : location.Same state { state with pc } := by
  cases location <;> rfl

theorem same_next (state : State) : location.Same state state.next :=
  same_pc state _

theorem same_registers {registers : Vector UInt8 16}
    (kept : ∀ number, location = .register number →
      State.register { state with registers } number = state.register number) :
    location.Same state { state with registers } := by
  cases location with
  | register number => exact kept number rfl
  | _ => rfl

theorem same_setRegister {target : Register} (other : location ≠ .register target) (state : State)
    (value : UInt8) : location.Same state (state.setRegister target value) := by
  apply same_registers
  rintro number rfl
  have different : target.val ≠ number.val := fun same => other (congrArg _ (Fin.ext same.symm))
  exact Vector.getElem_set_ne target.isLt number.isLt different

theorem same_replaceRegisters {bytes : List UInt8}
    (other : ∀ number : Register, number.val < bytes.length → location ≠ .register number)
    (state : State) : location.Same state (state.replaceRegisters bytes) := by
  apply same_registers
  rintro number rfl
  have beyond : bytes.length ≤ number.val := by
    by_contra within
    exact other number (by omega) rfl
  simp [State.register, beyond]

theorem same_setFlagged {target : Register} (other : location ≠ .register target)
    (unflagged : location ≠ .register .flag) (state : State) (value : UInt8) (flag : Bool) :
    location.Same state (state.setFlagged target value flag) :=
  (same_setRegister unflagged state _).trans (same_setRegister other _ value)

theorem same_index (other : location ≠ .index) (state : State) (index : UInt16) :
    location.Same state { state with index } := by
  cases location <;> first | exact absurd rfl other | rfl

theorem same_delayTimer (other : location ≠ .delayTimer) (state : State) (delayTimer : UInt8) :
    location.Same state { state with delayTimer } := by
  cases location <;> first | exact absurd rfl other | rfl

theorem same_soundTimer (other : location ≠ .soundTimer) (state : State) (soundTimer : UInt8) :
    location.Same state { state with soundTimer } := by
  cases location <;> first | exact absurd rfl other | rfl

theorem same_frame (other : location ≠ .picture) (unmarked : location ≠ .mark) (state : State)
    (frame : Frame) : location.Same state { state with frame, redraw := true } := by
  cases location <;> first | exact absurd rfl other | exact absurd rfl unmarked | rfl

theorem same_drawSprite (other : location ≠ .picture) (unmarked : location ≠ .mark)
    (unflagged : location ≠ .register .flag) (state : State) (x y : UInt8) (sprite : List UInt8) :
    location.Same state (state.drawSprite x y sprite) :=
  (same_setRegister unflagged state _).trans (same_frame other unmarked _ _)

theorem same_memory {memory : Memory} {bytes : List UInt8}
    (written : state.memory.write? state.index.toNat bytes = some memory)
    (other : ∀ address, state.index.toNat ≤ address →
      address < state.index.toNat + bytes.length → location ≠ .cell address) :
    location.Same state { state with memory } := by
  cases location with
  | cell address =>
      apply Memory.getElem?_write?_of_outside written
      by_contra inside
      exact other address (by omega) (by omega) rfl
  | _ => rfl

theorem same_push {address : UInt16} {stack : CallStack}
    (pushed : state.stack.push? address = some stack) (shallow : location ≠ .depth)
    (other : location ≠ .slot state.stack.depth) : location.Same state { state with stack } := by
  cases location with
  | depth => exact absurd rfl shallow
  | slot number =>
      have different : state.stack.depth ≠ number := fun same => other (congrArg _ same.symm)
      exact CallStack.getElem?_slots_of_push? pushed different
  | _ => rfl

theorem same_pop {popped : UInt16 × CallStack} (found : state.stack.pop? = some popped)
    (shallow : location ≠ .depth) : location.Same state { state with stack := popped.2 } := by
  cases location with
  | depth => exact absurd rfl shallow
  | slot number => exact congrArg (fun slots => slots[number]?) (CallStack.slots_of_pop? found).1
  | _ => rfl

theorem same_advanceIndex {dialect : Dialect}
    (other : dialect.indexIncrement = true → location ≠ .index) (state : State)
    (last : Register) : location.Same state (state.advanceIndex dialect last) := by
  unfold State.advanceIndex
  split
  · exact same_index (other ‹_›) state _
  · exact same_pc state _

end Location

namespace Word

/-- Whether the last digit is one of those with which the words `8xy_` calculate and
report in the flag register. -/
def Calculates (word : Word) : Prop :=
  (0x4 ≤ word.digit.val ∧ word.digit.val ≤ 0x7) ∨ word.digit.val = 0xE

/-- What the words of the instruction set write, by their digits. -/
inductive Writes (word : Word) (dialect : Dialect) (state : State) : Location → Prop where
  | picture : word.isClear = true ∨ word.isDraw = true → word.Writes dialect state .picture
  | mark : word.isClear = true ∨ word.isDraw = true → word.Writes dialect state .mark
  | collision : word.isDraw = true → word.Writes dialect state (.register .flag)
  | depth : word.isCall = true ∨ word.isReturn = true → word.Writes dialect state .depth
  | slot : word.isCall = true → word.Writes dialect state (.slot state.stack.depth)
  | load : word.family.val = 0x6 ∨ word.family.val = 0x7 ∨ word.family.val = 0xC →
      word.Writes dialect state (.register word.x)
  | combine : word.family.val = 0x8 → word.digit.val ≤ 0x3 →
      word.Writes dialect state (.register word.x)
  | calculate : word.family.val = 0x8 → word.Calculates →
      word.Writes dialect state (.register word.x)
  | carry : word.family.val = 0x8 → word.Calculates →
      word.Writes dialect state (.register .flag)
  | loadDevice : word.family.val = 0xF → word.byte = 0x07 ∨ word.byte = 0x0A →
      word.Writes dialect state (.register word.x)
  | loadRegisters {number : Register} : word.family.val = 0xF → word.byte = 0x65 →
      number ≤ word.x → word.Writes dialect state (.register number)
  | loadIndex : word.family.val = 0xA → word.Writes dialect state .index
  | moveIndex : word.family.val = 0xF → word.byte = 0x1E ∨ word.byte = 0x29 →
      word.Writes dialect state .index
  | advanceIndex : dialect.indexIncrement = true → word.family.val = 0xF →
      word.byte = 0x55 ∨ word.byte = 0x65 → word.Writes dialect state .index
  | delayTimer : word.family.val = 0xF → word.byte = 0x15 → word.Writes dialect state .delayTimer
  | soundTimer : word.family.val = 0xF → word.byte = 0x18 → word.Writes dialect state .soundTimer
  | decimal {address : Nat} : word.family.val = 0xF → word.byte = 0x33 →
      state.index.toNat ≤ address → address < state.index.toNat + 3 →
      word.Writes dialect state (.cell address)
  | registers {address : Nat} : word.family.val = 0xF → word.byte = 0x55 →
      state.index.toNat ≤ address → address ≤ state.index.toNat + word.x.val →
      word.Writes dialect state (.cell address)

variable {word : Word} {dialect : Dialect} {byte : UInt8} {before after : State}
  {location : Location}

theorem calculates_of_arithmetic {operation : Arithmetic}
    (digit : word.digit.val = operation.digit) : word.Calculates := by
  rw [Calculates, digit]
  cases operation <;> decide

theorem calculates_of_shift {direction : Shift} (digit : word.digit.val = direction.digit) :
    word.Calculates := by
  rw [Calculates, digit]
  cases direction <;> decide

section Spared

variable (spared : ¬word.Writes dialect before location)

include spared

theorem ne_of_writes {other : Location} (writes : word.Writes dialect before other) :
    location ≠ other := by
  rintro rfl
  exact spared writes

theorem same_of_setRegister {target : Register}
    (writes : word.Writes dialect before (.register target)) (value : UInt8) :
    location.Same before (before.next.setRegister target value) :=
  (Location.same_next before).trans (Location.same_setRegister (ne_of_writes spared writes) _ _)

theorem same_of_setFlagged (family : word.family.val = 0x8) (calculates : word.Calculates)
    (result : UInt8) (flag : Bool) :
    location.Same before (before.next.setFlagged word.x result flag) := by
  have other := ne_of_writes spared (.calculate family calculates)
  have unflagged := ne_of_writes spared (.carry family calculates)
  exact (Location.same_next before).trans (Location.same_setFlagged other unflagged _ _ _)

theorem same_of_index (writes : word.Writes dialect before .index) (index : UInt16) :
    location.Same before { before.next with index } :=
  (Location.same_next before).trans (Location.same_index (ne_of_writes spared writes) _ _)

theorem same_of_ret (returns : word.isReturn = true)
    (executed : Instruction.ret.execute dialect byte before = .ok after) :
    location.Same before after := by
  obtain ⟨popped, found, rfl⟩ := Instruction.execute_ret_eq_ok_iff.mp executed
  have shallow := ne_of_writes spared (.depth (Or.inr returns))
  exact (Location.same_pop found shallow).trans (Location.same_pc _ _)

theorem same_of_call (calls : word.isCall = true) {target : Address}
    (executed : (Instruction.call target).execute dialect byte before = .ok after) :
    location.Same before after := by
  obtain ⟨stack, pushed, rfl⟩ := Instruction.execute_call_eq_ok_iff.mp executed
  have shallow := ne_of_writes spared (.depth (Or.inl calls))
  have other := ne_of_writes spared (.slot calls)
  exact (Location.same_push pushed shallow other).trans (Location.same_pc _ _)

theorem same_of_clear (clears : word.isClear = true) :
    location.Same before { before.next with frame := .blank, redraw := true } := by
  have other := ne_of_writes spared (.picture (Or.inl clears))
  have unmarked := ne_of_writes spared (.mark (Or.inl clears))
  exact (Location.same_next before).trans (Location.same_frame other unmarked _ _)

theorem same_of_draw (draws : word.isDraw = true) {x y : Register} {height : Fin 16}
    (executed : (Instruction.draw x y height).execute dialect byte before = .ok after) :
    location.Same before after := by
  obtain ⟨sprite, -, rfl⟩ := Instruction.execute_draw_eq_ok_iff.mp executed
  have other := ne_of_writes spared (.picture (Or.inr draws))
  have unmarked := ne_of_writes spared (.mark (Or.inr draws))
  have unflagged := ne_of_writes spared (.collision draws)
  exact (Location.same_next before).trans
    (Location.same_drawSprite other unmarked unflagged _ _ _ _)

theorem same_of_awaitKey (writes : word.Writes dialect before (.register word.x))
    (executed : (Instruction.awaitKey word.x).execute dialect byte before = .ok after) :
    location.Same before after := by
  cases (Instruction.execute_awaitKey _ dialect _ before).symm.trans executed
  split
  · exact same_of_setRegister spared writes _
  · exact Location.same_pc before _

theorem same_of_storeDecimal (family : word.family.val = 0xF) (lowByte : word.byte = 0x33)
    (executed : (Instruction.storeDecimal word.x).execute dialect byte before = .ok after) :
    location.Same before after := by
  obtain ⟨memory, written, rfl⟩ := Instruction.execute_storeDecimal_eq_ok_iff.mp executed
  have other : ∀ address, before.index.toNat ≤ address →
      address < before.index.toNat + (decimalDigits (before.register word.x)).length →
      location ≠ .cell address :=
    fun address above below => ne_of_writes spared (.decimal family lowByte above below)
  exact (Location.same_memory written other).trans (Location.same_next _)

theorem same_of_storeRegisters (family : word.family.val = 0xF) (lowByte : word.byte = 0x55)
    (executed : (Instruction.storeRegisters word.x).execute dialect byte before = .ok after) :
    location.Same before after := by
  obtain ⟨memory, written, rfl⟩ := Instruction.execute_storeRegisters_eq_ok_iff.mp executed
  have other : ∀ address, before.index.toNat ≤ address →
      address < before.index.toNat + (before.registers.toList.take (word.x.val + 1)).length →
      location ≠ .cell address := by
    intro address above below
    rw [before.length_take_registers] at below
    exact ne_of_writes spared (.registers family lowByte above (by omega))
  have stored := (Location.same_memory written other).trans (Location.same_next _)
  have unmoved : dialect.indexIncrement = true → location ≠ .index :=
    fun increments => ne_of_writes spared (.advanceIndex increments family (Or.inl lowByte))
  exact stored.trans (Location.same_advanceIndex unmoved _ _)

theorem same_of_loadRegisters (family : word.family.val = 0xF) (lowByte : word.byte = 0x65)
    (executed : (Instruction.loadRegisters word.x).execute dialect byte before = .ok after) :
    location.Same before after := by
  obtain ⟨bytes, found, rfl⟩ := Instruction.execute_loadRegisters_eq_ok_iff.mp executed
  have length := Memory.length_of_read? (State.read_eq_ok_iff.mp found)
  have other : ∀ number : Register, number.val < bytes.length →
      location ≠ .register number := by
    intro number within
    exact ne_of_writes spared (.loadRegisters family lowByte (Fin.le_def.mpr (by omega)))
  have loaded := (Location.same_next before).trans (Location.same_replaceRegisters other _)
  have unmoved : dialect.indexIncrement = true → location ≠ .index :=
    fun increments => ne_of_writes spared (.advanceIndex increments family (Or.inr lowByte))
  exact loaded.trans (Location.same_advanceIndex unmoved _ _)

/-- Whatever a word does not write is left alone. -/
theorem same_of_execute (executed : word.execute dialect byte before = .ok after) :
    location.Same before after := by
  unfold execute at executed
  split at executed
  case h_2 =>
    cases executed
    exact Location.same_next before
  rename_i instruction decoded
  cases standsFor_of_decode decoded with
  | clear =>
      cases executed
      exact same_of_clear spared (isClear_iff.mpr decoded)
  | ret => exact same_of_ret spared (isReturn_iff.mpr decoded) executed
  | call => exact same_of_call spared (isCall_of_decode decoded) executed
  | draw => exact same_of_draw spared (isDraw_of_decode decoded) executed
  | load family | addByte family | random family =>
      cases executed
      exact same_of_setRegister spared (.load (by simp [family])) _
  | combine operation family digit =>
      cases executed
      have combines : word.digit.val ≤ 0x3 := by
        rw [digit]
        cases operation <;> decide
      exact same_of_setRegister spared (.combine family combines) _
  | arithmetic operation family digit =>
      cases executed
      exact same_of_setFlagged spared family (calculates_of_arithmetic digit) _ _
  | shift direction family digit =>
      cases executed
      exact same_of_setFlagged spared family (calculates_of_shift digit) _ _
  | loadIndex family =>
      cases executed
      exact same_of_index spared (.loadIndex family) _
  | addIndex family lowByte =>
      cases executed
      exact same_of_index spared (.moveIndex family (Or.inl lowByte)) _
  | loadGlyph family lowByte =>
      cases executed
      exact same_of_index spared (.moveIndex family (Or.inr lowByte)) _
  | loadDelay family lowByte =>
      cases executed
      exact same_of_setRegister spared (.loadDevice family (Or.inl lowByte)) _
  | awaitKey family lowByte =>
      exact same_of_awaitKey spared (.loadDevice family (Or.inr lowByte)) executed
  | setDelay family lowByte =>
      cases executed
      have other := ne_of_writes spared (.delayTimer family lowByte)
      exact (Location.same_next before).trans (Location.same_delayTimer other _ _)
  | setSound family lowByte =>
      cases executed
      have other := ne_of_writes spared (.soundTimer family lowByte)
      exact (Location.same_next before).trans (Location.same_soundTimer other _ _)
  | storeDecimal family lowByte => exact same_of_storeDecimal spared family lowByte executed
  | storeRegisters family lowByte => exact same_of_storeRegisters spared family lowByte executed
  | loadRegisters family lowByte => exact same_of_loadRegisters spared family lowByte executed
  | _ =>
      cases executed
      exact Location.same_pc before _

end Spared

/-- The words that raise the mark of the picture are those that clear it or draw
on it. -/
theorem redraws_eq (word : Word) : word.redraws = (word.isClear || word.isDraw) := by
  rw [Bool.eq_iff_iff, Bool.or_eq_true, redraws, Option.any_eq_true, isClear_iff]
  constructor
  · rintro ⟨instruction, decoded, shows⟩
    cases instruction with
    | clear => exact Or.inl decoded
    | draw => exact Or.inr (isDraw_of_decode decoded)
    | _ => cases shows
  · rintro (clears | draws)
    · exact ⟨_, clears, rfl⟩
    · exact ⟨_, decode_of_isDraw draws, rfl⟩

theorem depth_of_call (calls : word.isCall = true)
    (executed : word.execute dialect byte before = .ok after) :
    after.stack.depth = before.stack.depth + 1 := by
  simp only [execute, decode_of_isCall calls] at executed
  obtain ⟨stack, pushed, rfl⟩ := Instruction.execute_call_eq_ok_iff.mp executed
  exact (CallStack.depth_of_push? pushed).1

theorem depth_of_return (returns : word.isReturn = true)
    (executed : word.execute dialect byte before = .ok after) :
    before.stack.depth = after.stack.depth + 1 := by
  simp only [execute, isReturn_iff.mp returns] at executed
  obtain ⟨popped, found, rfl⟩ := Instruction.execute_ret_eq_ok_iff.mp executed
  exact CallStack.depth_of_pop? found

theorem execute_of_unlisted (unlisted : ∀ instruction, ¬word.StandsFor instruction) :
    word.execute dialect byte before = .ok before.next :=
  execute_of_undecoded (decode_eq_none_iff.mpr unlisted) dialect byte before

end Word

namespace Machine

/-- A step that succeeds, in place as well, writes no location that the digits of its word
spare, and raises the mark of the picture exactly if the word clears or draws. -/
theorem step_leaves_unwritten {machine : Machine} {word : Word}
    (fetched : machine.state.fetch = .ok word) (stepped : machine.step.value = .ok ()) :
    let before := machine.state
    let after := machine.step.machine.state
    (∀ location, ¬word.Writes machine.config.dialect before location →
        location.Same before after) ∧
      after.redraw = (before.redraw || (word.isClear || word.isDraw)) ∧
      (word.isCall = true → after.stack.depth = before.stack.depth + 1) ∧
      (word.isReturn = true → before.stack.depth = after.stack.depth + 1) ∧
      ((∀ location, ¬word.Writes machine.config.dialect before location) →
        after = { before with pc := after.pc }) ∧
      ((∀ instruction, ¬word.StandsFor instruction) → after = before.next) ∧
      (machine.Reachable → ∀ log, Effect.outcome Effect.step ⟨machine, log⟩ =
        (.ok (), ⟨machine.step.machine, log ++ machine.step.log⟩)) := by
  obtain ⟨state, executed, machineEq⟩ := exists_of_stepped fetched stepped
  have spares : ∀ location, ¬word.Writes machine.config.dialect machine.state location →
      location.Same machine.state state :=
    fun location spared => Word.same_of_execute spared executed
  intro before after
  have afterEq : after = state := congrArg Machine.state machineEq
  rw [afterEq]
  refine ⟨spares, ?_, ?_, ?_, ?_, ?_, ?_⟩
  · rw [← Word.redraws_eq]
    exact Word.redraw_of_execute executed
  · intro calls
    exact Word.depth_of_call calls executed
  · intro returns
    exact Word.depth_of_return returns executed
  · intro sparesAll
    exact Location.eq_of_same fun location => spares location (sparesAll location)
  · intro unlisted
    rw [Word.execute_of_unlisted unlisted] at executed
    exact (Except.ok.inj executed).symm
  · intro reachable
    exact Effect.outcome_step_of_ok reachable.bounded stepped

/-- A program that points the index register at the last two bytes of memory and
stores two registers there, before it stores them. -/
def toppingOut : Machine :=
  (new {} (.cycle #[])).performAll [.load #[0xAF, 0xFE, 0xF1, 0x55], .step]

theorem state_toppingOut :
    toppingOut.state =
      { State.boot #[0xAF, 0xFE, 0xF1, 0x55] with pc := 0x202, index := 0xFFE } := by
  have fits : #[(0xAF : UInt8), 0xFE, 0xF1, 0x55].size ≤ Memory.programCapacity := by decide
  have first : #[(0xAF : UInt8), 0xFE, 0xF1, 0x55][0]? = some 0xAF := rfl
  have second : #[(0xAF : UInt8), 0xFE, 0xF1, 0x55][1]? = some 0xFE := rfl
  have fetched : (State.boot #[0xAF, 0xFE, 0xF1, 0x55]).fetch = .ok 0xAFFE :=
    State.fetch_boot first second
  rw [toppingOut, performAll_load_step _ fits fetched rfl]
  rfl

/-- It leaves the byte before them alone, and the call stack. -/
theorem step_leaves_unwritten_storing :
    toppingOut.state.fetch = .ok 0xF155 ∧ toppingOut.step.value = .ok () ∧
      (Location.cell 0xFFD).Same toppingOut.state toppingOut.step.machine.state ∧
      Location.depth.Same toppingOut.state toppingOut.step.machine.state := by
  have index : toppingOut.state.index = 0xFFE := by rw [state_toppingOut]
  have holds : toppingOut.state.memory = .image #[0xAF, 0xFE, 0xF1, 0x55] := by
    rw [state_toppingOut]
    rfl
  have counter : toppingOut.state.pc = 0x202 := by rw [state_toppingOut]
  have third : #[(0xAF : UInt8), 0xFE, 0xF1, 0x55][2]? = some 0xF1 := rfl
  have fourth : #[(0xAF : UInt8), 0xFE, 0xF1, 0x55][3]? = some 0x55 := rfl
  have fetched : toppingOut.state.fetch = .ok 0xF155 :=
    State.fetch_second holds counter third fourth
  have inside : toppingOut.state.index.toNat + 2 ≤ Memory.size := by
    rw [index]
    decide
  have faultless : ∀ state : State, state.fetch = .ok 0xF155 →
      state.index.toNat + 2 ≤ Memory.size → state.fault? = none := by
    intro state fetched inside
    have decoded : Word.decode 0xF155 = some (.storeRegisters 1) := rfl
    simp only [State.fault?, fetched, decoded, Option.bind_some]
    exact if_pos (Or.inr inside)
  have stepped : toppingOut.step.value = .ok () := by
    rw [step_value_eq, faultless _ fetched inside]
  have below : ¬toppingOut.state.index.toNat ≤ 0xFFD := by
    rw [index]
    decide
  obtain ⟨spares, -⟩ := step_leaves_unwritten fetched stepped
  refine ⟨fetched, stepped, spares _ ?_, spares _ ?_⟩
  · intro writes
    cases writes with
    | decimal family byte => exact absurd byte (by decide)
    | registers family byte above => exact below above
  · intro writes
    cases writes with
    | depth changes => exact absurd changes (by decide)

end Machine

end ChipEight
