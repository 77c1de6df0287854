import ChipEight.Config
import ChipEight.Instruction.Decode

/-!
# Execution

What one instruction does to the state.  The bounds of the call stack and of
memory are checked before anything changes, so that an instruction either
yields a new state or a fault and nothing else.
-/

namespace ChipEight

namespace Condition

def holds (state : State) : Condition → Bool
  | equalsByte x byte => state.register x == byte
  | differsFromByte x byte => state.register x != byte
  | equalsRegister x y => state.register x == state.register y
  | differsFromRegister x y => state.register x != state.register y
  | keyDown x => state.keypad.isByteDown (state.register x)
  | keyUp x => !state.keypad.isByteDown (state.register x)

end Condition

namespace State

/-- Move the index register past the registers `V0` to `last`, if the dialect
says so. -/
def advanceIndex (state : State) (dialect : Dialect) (last : Register) : State :=
  if dialect.indexIncrement then
    { state with index := state.index + UInt16.ofNat (last.val + 1) }
  else
    state

/-- Toggle the pixels of a sprite, and set the flag register if one of them was
lit. -/
def drawSprite (state : State) (x y : UInt8) (sprite : List UInt8) : State :=
  let points := Sprite.points x.toNat y.toNat sprite
  { state.setRegister .flag (state.frame.anyLit points).toUInt8 with
    frame := state.frame.toggleAll points
    redraw := true }

def replaceRegisters (state : State) (bytes : List UInt8) : State :=
  { state with
    registers := Vector.ofFn fun register : Register =>
      bytes.getD register.val (state.register register) }

end State

/-- The three decimal digits of a byte, hundreds first. -/
def decimalDigits (byte : UInt8) : List UInt8 :=
  [byte / 100, byte / 10 % 10, byte % 10]

namespace Instruction

/-- Execute an instruction at the current address.  The random byte is the one
that an instruction which draws would receive. -/
def execute (dialect : Dialect) (randomByte : UInt8) (state : State) :
    Instruction → Except Fault State
  | clear => .ok { state.next with frame := .blank, redraw := true }
  | ret =>
    match state.stack.pop? with
    | some (address, stack) => .ok { state with pc := address, stack }
    | none => .error (.stackUnderflow state.pc)
  | jump target => .ok { state with pc := UInt16.ofNat target.val }
  | jumpOffset base =>
    .ok { state with pc := UInt16.ofNat base.val + (state.register .offset).toUInt16 }
  | call target =>
    match state.stack.push? (state.pc + 2) with
    | some stack => .ok { state with pc := UInt16.ofNat target.val, stack }
    | none => .error (.stackOverflow state.pc)
  | skip condition => .ok (state.skipIf (condition.holds state))
  | load x byte => .ok (state.next.setRegister x byte)
  | addByte x byte => .ok (state.next.setRegister x (state.register x + byte))
  | combine operation x y =>
    .ok (state.next.setRegister x (operation.apply (state.register x) (state.register y)))
  | arithmetic operation x y =>
    let (result, flag) := operation.apply (state.register x) (state.register y)
    .ok (state.next.setFlagged x result flag)
  | shift direction x =>
    let (result, flag) := direction.apply (state.register x)
    .ok (state.next.setFlagged x result flag)
  | loadIndex address => .ok { state.next with index := UInt16.ofNat address.val }
  | random x mask => .ok (state.next.setRegister x (randomByte &&& mask))
  | draw x y height =>
    match state.read state.index height.val with
    | .ok sprite => .ok (state.next.drawSprite (state.register x) (state.register y) sprite)
    | .error fault => .error fault
  | loadDelay x => .ok (state.next.setRegister x state.delayTimer)
  | awaitKey x =>
    match state.keypad.lowestDown? with
    | some key => .ok (state.next.setRegister x key.toByte)
    | none => .ok state
  | setDelay x => .ok { state.next with delayTimer := state.register x }
  | setSound x => .ok { state.next with soundTimer := state.register x }
  | addIndex x => .ok { state.next with index := state.index + (state.register x).toUInt16 }
  | loadGlyph x =>
    .ok { state.next with index := (state.register x).toUInt16 * UInt16.ofNat Glyph.height }
  | storeDecimal x =>
    match state.write state.index (decimalDigits (state.register x)) with
    | .ok stored => .ok stored.next
    | .error fault => .error fault
  | storeRegisters last =>
    match state.write state.index (state.registers.toList.take (last.val + 1)) with
    | .ok stored => .ok (stored.next.advanceIndex dialect last)
    | .error fault => .error fault
  | loadRegisters last =>
    match state.read state.index (last.val + 1) with
    | .ok bytes => .ok ((state.next.replaceRegisters bytes).advanceIndex dialect last)
    | .error fault => .error fault

/-- Waiting for a key is never refused. -/
theorem execute_awaitKey (x : Register) (dialect : Dialect) (randomByte : UInt8)
    (state : State) :
    (awaitKey x).execute dialect randomByte state =
      .ok (match state.keypad.lowestDown? with
        | some key => state.next.setRegister x key.toByte
        | none => state) := by
  simp only [execute]
  cases state.keypad.lowestDown? <;> rfl

end Instruction

namespace Word

/-- Execute a word at the current address.  A word that stands for no
instruction is skipped. -/
def execute (word : Word) (dialect : Dialect) (randomByte : UInt8) (state : State) :
    Except Fault State :=
  match word.decode with
  | some instruction => instruction.execute dialect randomByte state
  | none => .ok state.next

def drawsRandom (word : Word) : Bool :=
  word.decode.any Instruction.drawsRandom

end Word

end ChipEight
