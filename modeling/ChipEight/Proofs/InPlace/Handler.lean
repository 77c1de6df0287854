import ChipEight.Proofs.InPlace.Effect
import ChipEight.Proofs.Plotting

/-!
# Instructions in place

Every instruction as the effects that carry it out, in order, on a machine
whose program counter has already moved on.  All arithmetic on addresses is
checked against its word, and every register, slot, memory block and pixel
against its array.
-/

namespace ChipEight

namespace Effect

def addAddress (first second : UInt16) : Effect UInt16 := do
  demand (first.toNat + second.toNat < UInt16.size)
  return first + second

def subAddress (first second : UInt16) : Effect UInt16 := do
  demand (second.toNat ≤ first.toNat)
  return first - second

def mulAddress (first second : UInt16) : Effect UInt16 := do
  demand (first.toNat * second.toNat < UInt16.size)
  return first * second

def setCounter (address : UInt16) : Effect Unit :=
  update fun state => { state with pc := address }

def skipIf (condition : Bool) : Effect Unit :=
  if condition then do
    setCounter (← addAddress (← state).pc 2)
  else
    pure ()

/-- The address of the instruction that is being executed, recovered from the
program counter behind it. -/
def currentAddress : Effect UInt16 := do
  subAddress (← state).pc 2

def readRegister (index : Nat) : Effect UInt8 := do
  element (← state).registers[index]?

def writeRegister (index : Nat) (value : UInt8) : Effect Unit :=
  if inside : index < 16 then
    update fun state => state.setRegister ⟨index, inside⟩ value
  else
    crash

/-- Write an arithmetic result.  The flag comes first, so that the result wins
in the flag register. -/
def writeFlagged (index : Nat) (value : UInt8) (flag : Bool) : Effect Unit := do
  writeRegister Register.flag.val flag.toUInt8
  writeRegister index value

def firstRegisters (count : Nat) : Effect (List UInt8) := do
  demand (count ≤ 16)
  return (← state).registers.toList.take count

def writeFirstRegisters (count : Nat) (bytes : List UInt8) : Effect Unit := do
  demand (count ≤ 16)
  demand (bytes.length = count)
  update fun state => state.replaceRegisters bytes

/-- The bounds of the block of the given length at the index register.  Only a
block that is not empty must lie in memory. -/
def blockAtIndex (length : Nat) : Effect (Nat × Nat) := do
  let start := (← state).index.toNat
  if 0 < length ∧ Memory.size < start + length then
    refuse (.memoryOutOfBounds (← currentAddress) (max start Memory.size))
  else
    return (start, start + length)

def readSlot (index : Nat) : Effect UInt16 := do
  element (← state).stack.slots[index]?

def writeSlot (index : Nat) (address : UInt16) : Effect Unit :=
  if inside : index < CallStack.capacity then
    update fun state => { state with stack.slots := state.stack.slots.set index address }
  else
    crash

def setDepth (depth : Nat) : Effect Unit :=
  update fun state => { state with stack.depth := depth }

def readCell (address : Nat) : Effect UInt8 := do
  element (← state).memory.cells[address]?

def readBlock (start stop : Nat) : Effect (List UInt8) := do
  demand (start ≤ stop ∧ stop ≤ Memory.size)
  element ((← state).memory.read? start (stop - start))

def writeBlock (start stop : Nat) (bytes : List UInt8) : Effect Unit := do
  demand (start ≤ stop ∧ stop ≤ Memory.size)
  demand (bytes.length = stop - start)
  let memory ← element ((← state).memory.write? start bytes)
  update fun state => { state with memory }

/-- Store bytes at the index register, which are only produced once the block
has been accepted. -/
def storeAtIndex (length : Nat) (produce : Effect (List UInt8)) : Effect Unit := do
  let (start, stop) ← blockAtIndex length
  writeBlock start stop (← produce)

def pointAt (row column : Nat) : Effect Point :=
  if inside : row < Frame.height ∧ column < Frame.width then
    pure ⟨⟨row, inside.1⟩, ⟨column, inside.2⟩⟩
  else
    crash

def markIf (condition : Bool) : Effect Unit :=
  if condition then writeRegister Register.flag.val 1 else pure ()

/-- Toggle one pixel, and set the flag register first if it is lit. -/
def plot (row column : Nat) : Effect Unit := do
  let point ← pointAt row column
  let pixel := (← state).frame.pixel point
  markIf (pixel == 1)
  update fun state => { state with frame := state.frame.setPixel point (pixel ^^^ 1) }

def plotBits (x y : Nat) (byte : UInt8) (bits : List Nat) : Effect Unit :=
  forM bits fun bit =>
    if byte.toNat.testBit (7 - bit) then
      plot (y % Frame.height) ((x + bit) % Frame.width)
    else
      pure ()

def plotRows (x y start : Nat) : Nat → Effect Unit
  | 0 => pure ()
  | rows + 1 => do
    plotBits x y (← readCell start) (List.range 8)
    plotRows x (y + 1) (start + 1) rows

def drawWord : Effect UInt32 := do
  let random := (← machine).random
  updateMachine fun machine => { machine with random := random.advance }
  return random.words random.drawn

def advanceIndex (dialect : Dialect) (last : Register) : Effect Unit :=
  update fun state => state.advanceIndex dialect last

end Effect

open Effect in
def Condition.inPlace : Condition → Effect Bool
  | equalsByte x byte => do
    return (← readRegister x.val) == byte
  | differsFromByte x byte => do
    return (← readRegister x.val) != byte
  | equalsRegister x y => do
    return (← readRegister x.val) == (← readRegister y.val)
  | differsFromRegister x y => do
    return (← readRegister x.val) != (← readRegister y.val)
  | keyDown x => do
    let byte ← readRegister x.val
    return (← state).keypad.isByteDown byte
  | keyUp x => do
    let byte ← readRegister x.val
    return !(← state).keypad.isByteDown byte

open Effect in
/-- Carry out an instruction behind which the program counter already is. -/
def Instruction.inPlace (dialect : Dialect) : Instruction → Effect Unit
  | clear => do
    update fun state => { state with frame := .blank }
    update fun state => { state with redraw := true }
  | ret => do
    let depth := (← state).stack.depth
    if depth = 0 then
      refuse (.stackUnderflow (← currentAddress))
    else do
      demand (1 ≤ depth)
      setDepth (depth - 1)
      setCounter (← readSlot (depth - 1))
  | jump target => setCounter (UInt16.ofNat target.val)
  | jumpOffset base => do
    setCounter (← addAddress (UInt16.ofNat base.val) (← readRegister Register.offset.val).toUInt16)
  | call target => do
    let depth := (← state).stack.depth
    if CallStack.capacity ≤ depth then
      refuse (.stackOverflow (← currentAddress))
    else do
      writeSlot depth (← state).pc
      demand (depth + 1 < UInt8.size)
      setDepth (depth + 1)
      setCounter (UInt16.ofNat target.val)
  | skip condition => do
    skipIf (← condition.inPlace)
  | load x byte => writeRegister x.val byte
  | addByte x byte => do
    writeRegister x.val ((← readRegister x.val) + byte)
  | combine operation x y => do
    writeRegister x.val (operation.apply (← readRegister x.val) (← readRegister y.val))
  | arithmetic operation x y => do
    let applied := operation.apply (← readRegister x.val) (← readRegister y.val)
    writeFlagged x.val applied.1 applied.2
  | shift direction x => do
    let applied := direction.apply (← readRegister x.val)
    writeFlagged x.val applied.1 applied.2
  | loadIndex address => update fun state => { state with index := UInt16.ofNat address.val }
  | random x mask => do
    writeRegister x.val ((← drawWord).toUInt8 &&& mask)
  | draw x y height => do
    let (start, stop) ← blockAtIndex height.val
    let column ← readRegister x.val
    let row ← readRegister y.val
    writeRegister Register.flag.val 0
    plotRows column.toNat row.toNat start (stop - start)
    update fun state => { state with redraw := true }
  | loadDelay x => do
    writeRegister x.val (← state).delayTimer
  | awaitKey x => do
    match (← state).keypad.lowestDown? with
    | some key => writeRegister x.val key.toByte
    | none => setCounter (← currentAddress)
  | setDelay x => do
    let value ← readRegister x.val
    update fun state => { state with delayTimer := value }
  | setSound x => do
    let value ← readRegister x.val
    update fun state => { state with soundTimer := value }
  | addIndex x => do
    let value ← readRegister x.val
    update fun state => { state with index := state.index + value.toUInt16 }
  | loadGlyph x => do
    let address ← mulAddress (← readRegister x.val).toUInt16 (UInt16.ofNat Glyph.height)
    update fun state => { state with index := address }
  | storeDecimal x =>
    storeAtIndex 3 do
      return decimalDigits (← readRegister x.val)
  | storeRegisters last => do
    storeAtIndex (last.val + 1) (firstRegisters (last.val + 1))
    advanceIndex dialect last
  | loadRegisters last => do
    let (start, stop) ← blockAtIndex (last.val + 1)
    writeFirstRegisters (last.val + 1) (← readBlock start stop)
    advanceIndex dialect last

end ChipEight
