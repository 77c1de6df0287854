import ChipEight.Proofs.Decoding
import ChipEight.Proofs.Execution

/-!
# Timers, keys and the mark of the picture

Four parts of a state are shared with the outside: the two timers, the keypad and
the mark of the picture.  Six instructions load or set a timer or look at the
keypad.  Every other instruction does the same whatever the timers and keys are,
and leaves them alone, so that it makes no difference whether they are adjusted
before or after it.
-/

namespace ChipEight

/-- The parts of a state that are shared with the outside. -/
structure Peripherals where
  delayTimer : UInt8
  soundTimer : UInt8
  keypad : Keypad
  redraw : Bool

namespace Peripherals

def mark (peripherals : Peripherals) : Peripherals :=
  { peripherals with redraw := true }

/-- A change that makes no difference between raising the mark before and after
it. -/
def KeepsMark (change : Peripherals → Peripherals) : Prop :=
  ∀ peripherals, change peripherals.mark = (change peripherals).mark

end Peripherals

namespace State

def peripherals (state : State) : Peripherals where
  delayTimer := state.delayTimer
  soundTimer := state.soundTimer
  keypad := state.keypad
  redraw := state.redraw

def withPeripherals (state : State) (peripherals : Peripherals) : State :=
  { state with
    delayTimer := peripherals.delayTimer
    soundTimer := peripherals.soundTimer
    keypad := peripherals.keypad
    redraw := peripherals.redraw }

def adjust (change : Peripherals → Peripherals) (state : State) : State :=
  state.withPeripherals (change state.peripherals)

variable {change : Peripherals → Peripherals}

theorem adjust_adjust (first second : Peripherals → Peripherals) (state : State) :
    (state.adjust first).adjust second = state.adjust (second ∘ first) :=
  rfl

theorem next_adjust (state : State) : (state.adjust change).next = state.next.adjust change :=
  rfl

theorem adjust_mark_comm (keepsMark : Peripherals.KeepsMark change) (state : State) :
    (state.adjust change).adjust Peripherals.mark =
      (state.adjust Peripherals.mark).adjust change := by
  have composed : Peripherals.mark ∘ change = change ∘ Peripherals.mark :=
    funext fun peripherals => (keepsMark peripherals).symm
  rw [adjust_adjust, adjust_adjust, composed]

theorem replaceRegisters_adjust (state : State) (bytes : List UInt8) :
    (state.adjust change).replaceRegisters bytes =
      (state.replaceRegisters bytes).adjust change := by
  have registerEq : (state.adjust change).register = state.register := rfl
  simp only [replaceRegisters, registerEq]
  rfl

theorem write_adjust (state : State) (start : UInt16) (bytes : List UInt8) :
    (state.adjust change).write start bytes = (state.write start bytes).map (adjust change) := by
  have memoryEq : (state.adjust change).memory = state.memory := rfl
  unfold write
  rw [memoryEq]
  split <;> rfl

theorem advanceIndex_adjust (state : State) (dialect : Dialect) (last : Register) :
    (state.adjust change).advanceIndex dialect last =
      (state.advanceIndex dialect last).adjust change := by
  unfold advanceIndex
  split <;> rfl

theorem drawSprite_adjust (keepsMark : Peripherals.KeepsMark change) (state : State) (x y : UInt8)
    (sprite : List UInt8) :
    (state.adjust change).drawSprite x y sprite = (state.drawSprite x y sprite).adjust change :=
  let points := Sprite.points x.toNat y.toNat sprite
  adjust_mark_comm keepsMark
    { state.setRegister .flag (state.frame.anyLit points).toUInt8 with
      frame := state.frame.toggleAll points }

end State

namespace Instruction

/-- Whether an instruction loads or sets a timer or looks at the keypad. -/
def usesDevices : Instruction → Bool
  | loadDelay _ | setDelay _ | setSound _ | awaitKey _ => true
  | skip (.keyDown _) | skip (.keyUp _) => true
  | _ => false

variable {change : Peripherals → Peripherals}

/-- An instruction that uses no timer and no key can be executed before or after
they are adjusted. -/
theorem execute_adjust (keepsMark : Peripherals.KeepsMark change) {instruction : Instruction}
    (plain : instruction.usesDevices = false) (dialect : Dialect) (byte : UInt8) (state : State) :
    instruction.execute dialect byte (state.adjust change) =
      (instruction.execute dialect byte state).map (State.adjust change) := by
  cases instruction with
  | clear =>
      have cleared := State.adjust_mark_comm keepsMark { state.next with frame := .blank }
      exact congrArg Except.ok cleared
  | ret =>
      have stackEq : (state.adjust change).stack = state.stack := rfl
      simp only [execute, stackEq]
      cases state.stack.pop? <;> rfl
  | call target =>
      have stackEq : (state.adjust change).stack = state.stack := rfl
      have pcEq : (state.adjust change).pc = state.pc := rfl
      simp only [execute, stackEq, pcEq]
      cases state.stack.push? (state.pc + 2) <;> rfl
  | skip condition =>
      cases condition with
      | keyDown x | keyUp x => cases plain
      | _ => rfl
  | draw x y height =>
      have readEq : (state.adjust change).read (state.adjust change).index height.val =
          state.read state.index height.val := rfl
      simp only [execute, readEq]
      cases state.read state.index height.val with
      | error fault => rfl
      | ok sprite =>
          exact congrArg Except.ok (state.next.drawSprite_adjust keepsMark _ _ sprite)
  | loadDelay | awaitKey | setDelay | setSound => cases plain
  | storeDecimal x =>
      have indexEq : (state.adjust change).index = state.index := rfl
      have registerEq : (state.adjust change).register x = state.register x := rfl
      simp only [execute, State.write_adjust, indexEq, registerEq]
      cases state.write state.index (decimalDigits (state.register x)) with
      | error fault => rfl
      | ok stored => exact congrArg Except.ok stored.next_adjust
  | storeRegisters last =>
      have indexEq : (state.adjust change).index = state.index := rfl
      have registersEq : (state.adjust change).registers = state.registers := rfl
      simp only [execute, State.write_adjust, indexEq, registersEq]
      cases state.write state.index (state.registers.toList.take (last.val + 1)) with
      | error fault => rfl
      | ok stored =>
          simp only [State.next_adjust, State.advanceIndex_adjust, Except.map]
  | loadRegisters last =>
      have readEq : (state.adjust change).read (state.adjust change).index (last.val + 1) =
          state.read state.index (last.val + 1) := rfl
      simp only [execute, readEq]
      cases state.read state.index (last.val + 1) with
      | error fault => rfl
      | ok bytes =>
          simp only [State.next_adjust, State.replaceRegisters_adjust, State.advanceIndex_adjust,
            Except.map]
  | _ => rfl

theorem peripherals_of_execute {instruction : Instruction}
    (plain : instruction.usesDevices = false) {dialect : Dialect} {byte : UInt8}
    {before after : State} (executed : instruction.execute dialect byte before = .ok after) :
    after.delayTimer = before.delayTimer ∧ after.soundTimer = before.soundTimer ∧
      after.keypad = before.keypad := by
  -- Setting the timers and keys to what they are anyway can be done afterwards.
  let keep : Peripherals → Peripherals := fun peripherals =>
    { before.peripherals with redraw := peripherals.redraw }
  have keepsMark : Peripherals.KeepsMark keep := fun _ => rfl
  have sameBefore : before.adjust keep = before := rfl
  have adjusted := execute_adjust keepsMark plain dialect byte before
  rw [sameBefore, executed] at adjusted
  have sameAfter : after = after.adjust keep := Except.ok.inj adjusted
  rw [sameAfter]
  exact ⟨rfl, rfl, rfl⟩

end Instruction

namespace Word

/-- Whether a word loads or sets a timer, `Fx07`, `Fx15` or `Fx18`. -/
def usesTimer (word : Word) : Bool :=
  word.family.val == 0xF && (word.byte == 0x07 || word.byte == 0x15 || word.byte == 0x18)

/-- Whether a word looks at the keypad, `Ex9E`, `ExA1` or `Fx0A`. -/
def readsKeypad (word : Word) : Bool :=
  word.family.val == 0xE && (word.byte == 0x9E || word.byte == 0xA1) ||
    word.family.val == 0xF && word.byte == 0x0A

/-- A word that uses no timer and no key. -/
def Plain (word : Word) : Prop :=
  word.usesTimer = false ∧ word.readsKeypad = false

theorem usesDevices_of_decode {word : Word} {instruction : Instruction} (plain : word.Plain)
    (decoded : word.decode = some instruction) : instruction.usesDevices = false := by
  obtain ⟨timerless, keyless⟩ := plain
  cases standsFor_of_decode decoded with
  | keyDown family byte | keyUp family byte | awaitKey family byte =>
      simp [readsKeypad, family, byte] at keyless
  | loadDelay family byte | setDelay family byte | setSound family byte =>
      simp [usesTimer, family, byte] at timerless
  | _ => rfl

variable {word : Word} {dialect : Dialect} {byte : UInt8}

theorem execute_adjust {change : Peripherals → Peripherals}
    (keepsMark : Peripherals.KeepsMark change) (plain : word.Plain) (dialect : Dialect)
    (byte : UInt8) (state : State) :
    word.execute dialect byte (state.adjust change) =
      (word.execute dialect byte state).map (State.adjust change) := by
  unfold execute
  cases decoded : word.decode with
  | none => rfl
  | some instruction =>
      exact Instruction.execute_adjust keepsMark (usesDevices_of_decode plain decoded) dialect byte
        state

theorem peripherals_of_execute (plain : word.Plain) {before after : State}
    (executed : word.execute dialect byte before = .ok after) :
    after.delayTimer = before.delayTimer ∧ after.soundTimer = before.soundTimer ∧
      after.keypad = before.keypad := by
  unfold execute at executed
  split at executed
  · rename_i decoded
    exact Instruction.peripherals_of_execute (usesDevices_of_decode plain decoded) executed
  · cases executed
    exact ⟨rfl, rfl, rfl⟩

end Word

end ChipEight
