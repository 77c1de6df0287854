import ChipEight.CallStack
import ChipEight.Fault
import ChipEight.Frame
import ChipEight.Keypad
import ChipEight.Memory

/-!
# Machine state

Everything an instruction reads or writes, apart from the random source.  A
state is a plain value, so that a snapshot for rewinding is the state itself.
-/

namespace ChipEight

abbrev Register := Fin 16

/-- The register that receives carry, borrow and collision flags. -/
def Register.flag : Register := Fin.last 15

theorem Register.count_pos : 0 < 16 := by
  decide

/-- The register whose value is added to the base of a jump. -/
def Register.offset : Register := ⟨0, Register.count_pos⟩

/-- A snapshot of the machine. -/
structure State where
  registers : Vector UInt8 16
  /-- The register `I`, which points into memory. -/
  index : UInt16
  pc : UInt16
  stack : CallStack
  /-- Counts down to zero once per tick. -/
  delayTimer : UInt8
  /-- Counts down to zero once per tick, with a tone above zero. -/
  soundTimer : UInt8
  memory : Memory
  frame : Frame
  /-- Whether the picture may differ from the one presented last. -/
  redraw : Bool
  keypad : Keypad
  deriving DecidableEq

namespace State

/-- The state in which a program starts to run. -/
def boot (program : Array UInt8) : State where
  registers := Vector.replicate 16 0
  index := 0
  pc := UInt16.ofNat Memory.programStart
  stack := .empty
  delayTimer := 0
  soundTimer := 0
  memory := .image program
  frame := .blank
  redraw := false
  keypad := .released

def initial : State :=
  boot #[]

def register (state : State) (register : Register) : UInt8 :=
  state.registers[register]

def next (state : State) : State :=
  { state with pc := state.pc + 2 }

/-- Move on, and past one more instruction if the condition holds. -/
def skipIf (state : State) (condition : Bool) : State :=
  { state with pc := state.pc + if condition then 4 else 2 }

def setRegister (state : State) (register : Register) (value : UInt8) : State :=
  { state with registers := state.registers.set register value }

@[simp]
theorem register_setRegister_self (state : State) (register : Register) (value : UInt8) :
    (state.setRegister register value).register register = value :=
  Vector.getElem_set_self ..

theorem length_take_registers (state : State) (last : Register) :
    (state.registers.toList.take (last.val + 1)).length = last.val + 1 := by
  have lastLt := last.isLt
  rw [List.length_take, Vector.length_toList]
  omega

/-- Replace the value of one register and set the flag register.  The flag is
written first, so that the value wins if the flag register receives both. -/
def setFlagged (state : State) (register : Register) (value : UInt8) (flag : Bool) : State :=
  (state.setRegister .flag flag.toUInt8).setRegister register value

def read (state : State) (start : UInt16) (length : Nat) : Except Fault (List UInt8) :=
  match state.memory.read? start.toNat length with
  | some bytes => .ok bytes
  | none => .error (.memoryOutOfBounds state.pc (Memory.firstOutside start.toNat))

def write (state : State) (start : UInt16) (bytes : List UInt8) : Except Fault State :=
  match state.memory.write? start.toNat bytes with
  | some memory => .ok { state with memory }
  | none => .error (.memoryOutOfBounds state.pc (Memory.firstOutside start.toNat))

@[simp]
theorem pc_next (state : State) : state.next.pc = state.pc + 2 := by
  rfl

@[simp]
theorem registers_next (state : State) : state.next.registers = state.registers := by
  rfl

@[simp]
theorem register_next (state : State) (register : Register) :
    state.next.register register = state.register register := by
  rfl

@[simp]
theorem index_next (state : State) : state.next.index = state.index := by
  rfl

@[simp]
theorem stack_next (state : State) : state.next.stack = state.stack := by
  rfl

@[simp]
theorem delayTimer_next (state : State) : state.next.delayTimer = state.delayTimer := by
  rfl

@[simp]
theorem soundTimer_next (state : State) : state.next.soundTimer = state.soundTimer := by
  rfl

@[simp]
theorem memory_next (state : State) : state.next.memory = state.memory := by
  rfl

@[simp]
theorem frame_next (state : State) : state.next.frame = state.frame := by
  rfl

@[simp]
theorem redraw_next (state : State) : state.next.redraw = state.redraw := by
  rfl

@[simp]
theorem keypad_next (state : State) : state.next.keypad = state.keypad := by
  rfl

@[simp]
theorem mk_self (state : State) :
    State.mk state.registers state.index state.pc state.stack state.delayTimer state.soundTimer
      state.memory state.frame state.redraw state.keypad = state :=
  rfl

@[simp]
theorem skipIf_false (state : State) : state.skipIf false = state.next :=
  rfl

@[simp]
theorem skipIf_true (state : State) :
    state.skipIf true = { state with pc := state.pc + 4 } :=
  rfl

theorem read_of_inside (state : State) {start : UInt16} {length : Nat}
    (inside : length = 0 ∨ start.toNat + length ≤ Memory.size) :
    ∃ bytes, state.memory.read? start.toNat length = some bytes ∧
      state.read start length = .ok bytes := by
  have accepted := (Memory.read?_isSome_iff state.memory start.toNat length).mpr inside
  obtain ⟨bytes, found⟩ := Option.isSome_iff_exists.mp accepted
  exact ⟨bytes, found, by simp only [read, found]⟩

theorem read_of_outside (state : State) {start : UInt16} {length : Nat}
    (outside : ¬(length = 0 ∨ start.toNat + length ≤ Memory.size)) :
    state.read start length =
      .error (.memoryOutOfBounds state.pc (Memory.firstOutside start.toNat)) := by
  have notSome := mt (Memory.read?_isSome_iff state.memory start.toNat length).mp outside
  have missing := Option.not_isSome_iff_eq_none.mp notSome
  simp only [read, missing]

theorem write_of_inside (state : State) {start : UInt16} {bytes : List UInt8}
    (inside : bytes = [] ∨ start.toNat + bytes.length ≤ Memory.size) :
    ∃ memory, state.memory.write? start.toNat bytes = some memory ∧
      state.write start bytes = .ok { state with memory } := by
  have accepted := (Memory.write?_isSome_iff state.memory start.toNat bytes).mpr inside
  obtain ⟨memory, written⟩ := Option.isSome_iff_exists.mp accepted
  exact ⟨memory, written, by simp only [write, written]⟩

theorem write_of_outside (state : State) {start : UInt16} {bytes : List UInt8}
    (outside : ¬(bytes = [] ∨ start.toNat + bytes.length ≤ Memory.size)) :
    state.write start bytes =
      .error (.memoryOutOfBounds state.pc (Memory.firstOutside start.toNat)) := by
  have notSome := mt (Memory.write?_isSome_iff state.memory start.toNat bytes).mp outside
  have missing := Option.not_isSome_iff_eq_none.mp notSome
  simp only [write, missing]

/-- Count both timers down by one, but not below zero. -/
def tick (state : State) : State :=
  { state with
    delayTimer := UInt8.ofNat (state.delayTimer.toNat - 1)
    soundTimer := UInt8.ofNat (state.soundTimer.toNat - 1) }

def soundActive (state : State) : Bool :=
  0 < state.soundTimer

end State

end ChipEight
