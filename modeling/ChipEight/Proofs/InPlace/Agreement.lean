import ChipEight.Proofs.InPlace.Handler

/-!
# Instructions in place agree with instructions as a whole

Carried out in place, an instruction that was fetched from memory never
crashes.  It leaves the state that `Instruction.execute` yields, or it refuses
with the same fault before it has written anything.
-/

namespace ChipEight

namespace Effect

variable (bench : Bench)

theorem outcome_addAddress {first second : UInt16}
    (fits : first.toNat + second.toNat < UInt16.size) :
    outcome (addAddress first second) bench = (.ok (first + second), bench) := by
  simp [addAddress, outcome_demand fits]

theorem outcome_subAddress {first second : UInt16} (fits : second.toNat ≤ first.toNat) :
    outcome (subAddress first second) bench = (.ok (first - second), bench) := by
  simp [subAddress, outcome_demand fits]

theorem outcome_mulAddress {first second : UInt16}
    (fits : first.toNat * second.toNat < UInt16.size) :
    outcome (mulAddress first second) bench = (.ok (first * second), bench) := by
  simp [mulAddress, outcome_demand fits]

@[simp]
theorem outcome_setCounter (address : UInt16) :
    outcome (setCounter address) bench =
      (.ok (), bench.withState { bench.machine.state with pc := address }) :=
  rfl

/-- Behind an instruction that was fetched from memory, its address can be
recovered. -/
theorem outcome_currentAddress {pc : UInt16} (moved : bench.machine.state.pc = pc + 2)
    (fetched : pc.toNat + 2 ≤ Memory.size) :
    outcome currentAddress bench = (.ok pc, bench) := by
  have fits : (2 : UInt16).toNat ≤ (pc + 2).toNat := by
    rw [UInt16.toNat_add]
    simp only [Memory.size, UInt16.reduceToNat] at fetched ⊢
    omega
  simp [currentAddress, moved, outcome_subAddress bench fits]

@[simp]
theorem outcome_readRegister (register : Register) :
    outcome (readRegister register.val) bench =
      (.ok (bench.machine.state.register register), bench) := by
  simp [readRegister, State.register]

@[simp]
theorem outcome_writeRegister (register : Register) (value : UInt8) :
    outcome (writeRegister register.val value) bench =
      (.ok (), bench.withState (bench.machine.state.setRegister register value)) := by
  rw [writeRegister, dif_pos register.isLt, outcome_update]

@[simp]
theorem outcome_writeFlagged (register : Register) (value : UInt8) (flag : Bool) :
    outcome (writeFlagged register.val value flag) bench =
      (.ok (), bench.withState (bench.machine.state.setFlagged register value flag)) := by
  simp [writeFlagged, State.setFlagged]

@[simp]
theorem outcome_firstRegisters (last : Register) :
    outcome (firstRegisters (last.val + 1)) bench =
      (.ok (bench.machine.state.registers.toList.take (last.val + 1)), bench) := by
  have inside : last.val + 1 ≤ 16 := last.isLt
  simp [firstRegisters, outcome_demand inside]

theorem outcome_writeFirstRegisters (last : Register) {bytes : List UInt8}
    (sameLength : bytes.length = last.val + 1) :
    outcome (writeFirstRegisters (last.val + 1) bytes) bench =
      (.ok (), bench.withState (bench.machine.state.replaceRegisters bytes)) := by
  have inside : last.val + 1 ≤ 16 := last.isLt
  simp [writeFirstRegisters, outcome_demand inside, outcome_demand sameLength]

@[simp]
theorem outcome_condition (condition : Condition) :
    outcome condition.inPlace bench = (.ok (condition.holds bench.machine.state), bench) := by
  cases condition <;> simp [Condition.inPlace, Condition.holds]

theorem outcome_blockAtIndex_of_inside {length : Nat}
    (inside : length = 0 ∨ bench.machine.state.index.toNat + length ≤ Memory.size) :
    outcome (blockAtIndex length) bench =
      (.ok (bench.machine.state.index.toNat, bench.machine.state.index.toNat + length),
        bench) := by
  have accepted : ¬(0 < length ∧
      Memory.size < bench.machine.state.index.toNat + length) := by
    omega
  simp [blockAtIndex, accepted]

theorem outcome_blockAtIndex_of_outside {length : Nat} {pc : UInt16}
    (outside : ¬(length = 0 ∨ bench.machine.state.index.toNat + length ≤ Memory.size))
    (moved : bench.machine.state.pc = pc + 2) (fetched : pc.toNat + 2 ≤ Memory.size) :
    outcome (blockAtIndex length) bench =
      (.error (.refused (.memoryOutOfBounds pc
        (Memory.firstOutside bench.machine.state.index.toNat))), bench) := by
  have leaves : 0 < length ∧ Memory.size < bench.machine.state.index.toNat + length := by
    omega
  simp [blockAtIndex, leaves, outcome_currentAddress bench moved fetched, Memory.firstOutside]

theorem outcome_readBlock {start length : Nat} {bytes : List UInt8}
    (inside : start + length ≤ Memory.size)
    (found : bench.machine.state.memory.read? start length = some bytes) :
    outcome (readBlock start (start + length)) bench = (.ok bytes, bench) := by
  have bounds : start ≤ start + length ∧ start + length ≤ Memory.size := ⟨by omega, inside⟩
  simp [readBlock, outcome_demand bounds, found]

theorem outcome_writeBlock {start : Nat} {bytes : List UInt8} {memory : Memory}
    (inside : start + bytes.length ≤ Memory.size)
    (written : bench.machine.state.memory.write? start bytes = some memory) :
    outcome (writeBlock start (start + bytes.length) bytes) bench =
      (.ok (), bench.withState { bench.machine.state with memory }) := by
  have bounds : start ≤ start + bytes.length ∧ start + bytes.length ≤ Memory.size :=
    ⟨by omega, inside⟩
  have sameLength : bytes.length = start + bytes.length - start := by omega
  simp [writeBlock, outcome_demand bounds, outcome_demand sameLength, written]

@[simp]
theorem outcome_drawWord :
    outcome drawWord bench =
      (.ok (bench.machine.random.words bench.machine.random.drawn),
        { bench with
          machine := { bench.machine with random := bench.machine.random.advance } }) :=
  rfl

@[simp]
theorem outcome_advanceIndex (dialect : Dialect) (last : Register) :
    outcome (advanceIndex dialect last) bench =
      (.ok (), bench.withState (bench.machine.state.advanceIndex dialect last)) :=
  rfl

theorem outcome_plot (point : Point) :
    outcome (plot point.row.val point.column.val) bench =
      (.ok (), bench.withState (bench.machine.state.plot point)) := by
  have inside : point.row.val < Frame.height ∧ point.column.val < Frame.width :=
    ⟨point.row.isLt, point.column.isLt⟩
  have found : outcome (pointAt point.row.val point.column.val) bench = (.ok point, bench) := by
    rw [pointAt, dif_pos inside, outcome_pure]
  by_cases lit : bench.machine.state.frame.pixel point = 1 <;>
    simp [plot, found, markIf, lit, State.plot, Frame.toggle, State.setRegister]

theorem outcome_plotBits (x y : Nat) (byte : UInt8) (bits : List Nat) :
    outcome (plotBits x y byte bits) bench =
      (.ok (), bench.withState ((((bits.filter fun bit => byte.toNat.testBit (7 - bit)).map
        fun bit => (⟨Fin.ofNat Frame.height y, Fin.ofNat Frame.width (x + bit)⟩ : Point)).foldl
          State.plot bench.machine.state))) := by
  induction bits generalizing bench with
  | nil => rfl
  | cons bit bits ih =>
      have plotted := outcome_plot bench
        ⟨Fin.ofNat Frame.height y, Fin.ofNat Frame.width (x + bit)⟩
      simp only [Fin.val_ofNat] at plotted
      unfold plotBits at ih ⊢
      by_cases toggled : byte.toNat.testBit (7 - bit) = true
      · simp [toggled, plotted, ih]
      · simp [toggled, ih]

/-- The rows of a sprite are plotted from memory, which plotting leaves
alone. -/
theorem outcome_plotRows (x y start : Nat) {rows : Nat} {bytes : List UInt8}
    (found : bench.machine.state.memory.read? start rows = some bytes) :
    outcome (plotRows x y start rows) bench =
      (.ok (), bench.withState
        ((Sprite.points x y bytes).foldl State.plot bench.machine.state)) := by
  induction rows generalizing y start bytes bench with
  | zero =>
      simp only [Memory.read?, Option.some.injEq] at found
      subst found
      rfl
  | succ rows ih =>
      unfold Memory.read? at found
      split at found
      · rename_i byte rest first readRest
        simp only [Option.some.injEq] at found
        subst found
        have readFirst : outcome (readCell start) bench = (.ok byte, bench) := by
          simp [readCell, first]
        let drawn := (Sprite.rowPoints x (Fin.ofNat Frame.height y) byte).foldl State.plot
          bench.machine.state
        have kept : drawn.memory = bench.machine.state.memory :=
          State.memory_foldl_plot _ _
        have drawRow : outcome (plotBits x y byte (List.range 8)) bench =
            (.ok (), bench.withState drawn) :=
          outcome_plotBits bench x y byte (List.range 8)
        have drawRest := ih (bench.withState drawn) (y + 1) (start + 1)
          (by rw [Bench.state_withState, kept, readRest])
        simp only [plotRows, outcome_bind, readFirst, drawRow, drawRest, Sprite.points,
          List.foldl_append, Bench.withState_withState, Bench.state_withState, drawn]
      · simp at found

end Effect

namespace Bench

def advance (bench : Bench) (drew : Bool) (state : State) : Bench where
  machine := { bench.machine with
    state
    random := if drew then bench.machine.random.advance else bench.machine.random }
  log := bench.log

/-- What the effects of an instruction leave according to its result as a
whole.  A refused instruction leaves the program counter behind it and
everything else alone. -/
def settle (bench : Bench) (drew : Bool) :
    Except Fault State → Except Stop Unit × Bench
  | .ok state => (.ok (), bench.advance drew state)
  | .error fault => (.error (.refused fault), bench.withState bench.machine.state.next)

@[simp]
theorem advance_false (bench : Bench) (state : State) :
    bench.advance false state = bench.withState state :=
  rfl

@[simp]
theorem settle_ok (bench : Bench) (drew : Bool) (state : State) :
    bench.settle drew (.ok state) = (.ok (), bench.advance drew state) :=
  rfl

@[simp]
theorem settle_error (bench : Bench) (drew : Bool) (fault : Fault) :
    bench.settle drew (.error fault) =
      (.error (.refused fault), bench.withState bench.machine.state.next) :=
  rfl

end Bench

namespace Instruction

open Effect

/-- In place, an instruction leaves what its result as a whole says. -/
def Agrees (dialect : Dialect) (bench : Bench) (instruction : Instruction) : Prop :=
  outcome (instruction.inPlace dialect) (bench.withState bench.machine.state.next) =
    bench.settle instruction.drawsRandom
      (instruction.execute dialect bench.machine.random.byte bench.machine.state)

section Cases

variable (dialect : Dialect) (bench : Bench)

theorem agrees_ret (fetched : bench.machine.state.pc.toNat + 2 ≤ Memory.size)
    (depth_le : bench.machine.state.stack.depth ≤ CallStack.capacity) :
    ret.Agrees dialect bench := by
  cases depthEq : bench.machine.state.stack.depth with
  | zero =>
      have refused : bench.machine.state.stack.pop? = none := by
        simp [CallStack.pop?, depthEq]
      have address := outcome_currentAddress (bench.withState bench.machine.state.next) rfl fetched
      simp [Agrees, inPlace, execute, drawsRandom, depthEq, refused, address]
  | succ below =>
      have inside : below < CallStack.capacity := by omega
      have popped : bench.machine.state.stack.pop? =
          some (bench.machine.state.stack.slots[below],
            ⟨bench.machine.state.stack.slots, below⟩) := by
        simp [CallStack.pop?, depthEq, Vector.getElem?_eq_getElem inside]
      have positive : 1 ≤ bench.machine.state.next.stack.depth := by
        rw [State.stack_next, depthEq]
        omega
      simp [Agrees, inPlace, execute, drawsRandom, depthEq, popped,
        outcome_demand positive, setDepth, readSlot, Vector.getElem?_eq_getElem inside]

theorem agrees_call (target : Address)
    (fetched : bench.machine.state.pc.toNat + 2 ≤ Memory.size) :
    (call target).Agrees dialect bench := by
  by_cases full : CallStack.capacity ≤ bench.machine.state.stack.depth
  · have refused : bench.machine.state.stack.push? (bench.machine.state.pc + 2) = none :=
      CallStack.push?_eq_none_iff.mpr full
    have address := outcome_currentAddress (bench.withState bench.machine.state.next) rfl fetched
    simp [Agrees, inPlace, execute, drawsRandom, full, refused, address]
  · have room : bench.machine.state.stack.depth < CallStack.capacity := by omega
    have small : bench.machine.state.next.stack.depth + 1 < UInt8.size := by
      simp only [State.stack_next, CallStack.capacity, UInt8.size] at room ⊢
      omega
    simp [Agrees, inPlace, execute, drawsRandom, full, writeSlot, room,
      outcome_demand small, setDepth, CallStack.push?]

theorem agrees_jumpOffset (base : Address) :
    (jumpOffset base).Agrees dialect bench := by
  have fits : (UInt16.ofNat base.val).toNat +
      (bench.machine.state.register .offset).toUInt16.toNat < UInt16.size := by
    have baseLt := base.isLt
    have offsetLt := (bench.machine.state.register .offset).toNat_lt
    rw [UInt8.toNat_toUInt16, UInt16.toNat_ofNat']
    simp only [Memory.size, UInt16.size] at baseLt ⊢
    omega
  simp [Agrees, inPlace, execute, drawsRandom, outcome_addAddress _ fits]

theorem agrees_skip (condition : Condition)
    (fetched : bench.machine.state.pc.toNat + 2 ≤ Memory.size) :
    (skip condition).Agrees dialect bench := by
  have sameCondition : condition.holds bench.machine.state.next =
      condition.holds bench.machine.state := by
    cases condition <;> rfl
  cases holds : condition.holds bench.machine.state with
  | false =>
      simp [Agrees, inPlace, execute, drawsRandom, sameCondition, holds, skipIf]
  | true =>
      have fits : (bench.machine.state.pc + 2).toNat + (2 : UInt16).toNat < UInt16.size := by
        rw [UInt16.toNat_add]
        simp only [Memory.size, UInt16.reduceToNat, UInt16.size] at fetched ⊢
        omega
      have twice : bench.machine.state.pc + 2 + 2 = bench.machine.state.pc + 4 := by
        rw [UInt16.add_assoc]
        rfl
      simp [Agrees, inPlace, execute, drawsRandom, sameCondition, holds, skipIf,
        outcome_addAddress _ fits, twice]

theorem agrees_draw (x y : Register) (height : Fin 16)
    (fetched : bench.machine.state.pc.toNat + 2 ≤ Memory.size) :
    (draw x y height).Agrees dialect bench := by
  let moved := bench.withState bench.machine.state.next
  by_cases inside : height.val = 0 ∨
      bench.machine.state.index.toNat + height.val ≤ Memory.size
  · obtain ⟨bytes, found, accepted⟩ := bench.machine.state.read_of_inside inside
    have fits : bytes.length ≤ Frame.height := by
      have lengthEq := Memory.length_of_read? found
      have heightLt := height.isLt
      simp only [Frame.height]
      omega
    have block := outcome_blockAtIndex_of_inside moved inside
    have plotted := outcome_plotRows
      (bench.withState (bench.machine.state.next.setRegister .flag 0))
      (bench.machine.state.register x).toNat (bench.machine.state.register y).toNat
      bench.machine.state.index.toNat found
    simp [Agrees, inPlace, execute, drawsRandom, accepted, moved, block,
      plotted, State.drawSprite_eq_foldl_plot _ _ _ fits]
  · have refused := bench.machine.state.read_of_outside inside
    have block := outcome_blockAtIndex_of_outside moved inside rfl fetched
    simp [Agrees, inPlace, execute, drawsRandom, refused, moved, block]

theorem outcome_storeAtIndex {produce : Effect (List UInt8)} {bytes : List UInt8}
    (fetched : bench.machine.state.pc.toNat + 2 ≤ Memory.size)
    (produced : outcome produce (bench.withState bench.machine.state.next) =
      (.ok bytes, bench.withState bench.machine.state.next))
    (positive : 0 < bytes.length) :
    outcome (storeAtIndex bytes.length produce)
        (bench.withState bench.machine.state.next) =
      bench.settle false
        (match bench.machine.state.write bench.machine.state.index bytes with
          | .ok stored => .ok stored.next
          | .error fault => .error fault) := by
  let moved := bench.withState bench.machine.state.next
  by_cases inside : bench.machine.state.index.toNat + bytes.length ≤ Memory.size
  · obtain ⟨memory, written, accepted⟩ := bench.machine.state.write_of_inside (Or.inr inside)
    have block := outcome_blockAtIndex_of_inside moved (Or.inr inside)
    have stored := outcome_writeBlock moved inside written
    have storedNext : { bench.machine.state with memory }.next =
        { bench.machine.state.next with memory } := rfl
    simp [storeAtIndex, accepted, moved, block, produced, stored, storedNext]
  · have nonempty : bytes ≠ [] := List.length_pos_iff.mp positive
    have refused := bench.machine.state.write_of_outside
      (fun either => either.elim nonempty inside)
    have block := outcome_blockAtIndex_of_outside moved
      (fun either => either.elim (Nat.ne_of_gt positive) inside) rfl fetched
    simp [storeAtIndex, refused, moved, block]

theorem agrees_storeDecimal (x : Register)
    (fetched : bench.machine.state.pc.toNat + 2 ≤ Memory.size) :
    (storeDecimal x).Agrees dialect bench := by
  have produced : outcome (do return decimalDigits (← readRegister x.val))
      (bench.withState bench.machine.state.next) =
        (.ok (decimalDigits (bench.machine.state.register x)),
          bench.withState bench.machine.state.next) := by
    simp
  exact outcome_storeAtIndex bench fetched produced (by simp [decimalDigits])

theorem agrees_storeRegisters (last : Register)
    (fetched : bench.machine.state.pc.toNat + 2 ≤ Memory.size) :
    (storeRegisters last).Agrees dialect bench := by
  let bytes := bench.machine.state.registers.toList.take (last.val + 1)
  have lengthEq : bytes.length = last.val + 1 := State.length_take_registers ..
  have produced : outcome (firstRegisters (last.val + 1))
      (bench.withState bench.machine.state.next) =
        (.ok bytes, bench.withState bench.machine.state.next) :=
    outcome_firstRegisters _ last
  have stored := outcome_storeAtIndex bench fetched produced (by omega)
  rw [lengthEq] at stored
  simp only [Agrees, inPlace, execute, drawsRandom, outcome_bind, stored, bytes]
  cases bench.machine.state.write bench.machine.state.index
    (bench.machine.state.registers.toList.take (last.val + 1)) <;> rfl

theorem agrees_loadRegisters (last : Register)
    (fetched : bench.machine.state.pc.toNat + 2 ≤ Memory.size) :
    (loadRegisters last).Agrees dialect bench := by
  let moved := bench.withState bench.machine.state.next
  by_cases inside : bench.machine.state.index.toNat + (last.val + 1) ≤ Memory.size
  · obtain ⟨bytes, found, accepted⟩ := bench.machine.state.read_of_inside (Or.inr inside)
    have block := outcome_blockAtIndex_of_inside moved (Or.inr inside)
    have read := outcome_readBlock moved inside found
    have loaded := outcome_writeFirstRegisters moved last (Memory.length_of_read? found)
    simp [Agrees, inPlace, execute, drawsRandom, accepted, moved, block, read, loaded]
  · have outside : ¬(last.val + 1 = 0 ∨
        bench.machine.state.index.toNat + (last.val + 1) ≤ Memory.size) :=
      fun either => either.elim (Nat.succ_ne_zero _) inside
    have refused := bench.machine.state.read_of_outside outside
    have block := outcome_blockAtIndex_of_outside moved outside rfl fetched
    simp [Agrees, inPlace, execute, drawsRandom, refused, moved, block]

theorem agrees_loadGlyph (x : Register) :
    (loadGlyph x).Agrees dialect bench := by
  have fits : (bench.machine.state.register x).toUInt16.toNat *
      (UInt16.ofNat Glyph.height).toNat < UInt16.size := by
    have valueLt := (bench.machine.state.register x).toNat_lt
    have height : (UInt16.ofNat Glyph.height).toNat = 5 := rfl
    rw [UInt8.toNat_toUInt16, height]
    simp only [UInt16.size]
    omega
  simp [Agrees, inPlace, execute, drawsRandom, outcome_mulAddress _ fits]

theorem agrees_awaitKey (x : Register)
    (fetched : bench.machine.state.pc.toNat + 2 ≤ Memory.size) :
    (awaitKey x).Agrees dialect bench := by
  cases down : bench.machine.state.keypad.lowestDown? with
  | none =>
      have address := outcome_currentAddress (bench.withState bench.machine.state.next) rfl fetched
      simp [Agrees, inPlace, execute, drawsRandom, down, address]
  | some key =>
      simp [Agrees, inPlace, execute, drawsRandom, down]

end Cases

/-- Carrying out a fetched instruction in place settles as its result as a
whole says. -/
theorem agrees (dialect : Dialect) (instruction : Instruction) (bench : Bench)
    (fetched : bench.machine.state.pc.toNat + 2 ≤ Memory.size)
    (depth_le : bench.machine.state.stack.depth ≤ CallStack.capacity) :
    instruction.Agrees dialect bench := by
  cases instruction with
  | clear | jump | loadIndex => rfl
  | ret => exact agrees_ret dialect bench fetched depth_le
  | jumpOffset base => exact agrees_jumpOffset dialect bench base
  | call target => exact agrees_call dialect bench target fetched
  | skip condition => exact agrees_skip dialect bench condition fetched
  | random x mask =>
      simp only [Agrees, inPlace, outcome_bind, outcome_drawWord, outcome_writeRegister]
      rfl
  | load | addByte | combine | arithmetic | shift | loadDelay | setDelay | setSound
    | addIndex =>
      simp [Agrees, inPlace, execute, drawsRandom]
  | draw x y height => exact agrees_draw dialect bench x y height fetched
  | awaitKey x => exact agrees_awaitKey dialect bench x fetched
  | loadGlyph x => exact agrees_loadGlyph dialect bench x
  | storeDecimal x => exact agrees_storeDecimal dialect bench x fetched
  | storeRegisters last => exact agrees_storeRegisters dialect bench last fetched
  | loadRegisters last => exact agrees_loadRegisters dialect bench last fetched

end Instruction

end ChipEight
