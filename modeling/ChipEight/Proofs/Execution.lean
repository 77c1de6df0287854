import ChipEight.Instruction.Execute

/-!
# What an executed instruction changes

Six instructions can be refused.  For each of them one equivalence says when
it is executed and what it yields.  From these follow, for all instructions at
once, the ways in which the call stack, the picture and the program counter
can change.
-/

namespace ChipEight

namespace State

theorem advanceIndex_eq (state : State) (dialect : Dialect) (last : Register) :
    state.advanceIndex dialect last =
      { state with
        index :=
          if dialect.indexIncrement then state.index + UInt16.ofNat (last.val + 1)
          else state.index } := by
  unfold advanceIndex
  split <;> rfl

theorem read_eq_ok_iff {state : State} {start : UInt16} {length : Nat} {bytes : List UInt8} :
    state.read start length = .ok bytes ↔
      state.memory.read? start.toNat length = some bytes := by
  unfold read
  split <;> simp_all

theorem write_eq_ok_iff {state stored : State} {start : UInt16} {bytes : List UInt8} :
    state.write start bytes = .ok stored ↔
      ∃ memory, state.memory.write? start.toNat bytes = some memory ∧
        { state with memory } = stored := by
  unfold write
  split <;> simp_all

end State

namespace Instruction

variable {dialect : Dialect} {byte : UInt8} {before after : State}

theorem execute_ret_eq_ok_iff :
    ret.execute dialect byte before = .ok after ↔
      ∃ popped, before.stack.pop? = some popped ∧
        { before with pc := popped.1, stack := popped.2 } = after := by
  simp only [execute]
  split <;> simp_all

theorem execute_call_eq_ok_iff {target : Address} :
    (call target).execute dialect byte before = .ok after ↔
      ∃ stack, before.stack.push? (before.pc + 2) = some stack ∧
        { before with pc := UInt16.ofNat target.val, stack } = after := by
  simp only [execute]
  split <;> simp_all

theorem execute_draw_eq_ok_iff {x y : Register} {height : Fin 16} :
    (draw x y height).execute dialect byte before = .ok after ↔
      ∃ sprite, before.read before.index height.val = .ok sprite ∧
        before.next.drawSprite (before.register x) (before.register y) sprite = after := by
  simp only [execute]
  split <;> simp_all

theorem store_eq_ok_iff {start : UInt16} {bytes : List UInt8} {proceed : State → State} :
    (match before.write start bytes with
      | .ok stored => .ok (proceed stored)
      | .error fault => .error fault) = (.ok after : Except Fault State) ↔
      ∃ memory, before.memory.write? start.toNat bytes = some memory ∧
        proceed { before with memory } = after := by
  cases written : before.write start bytes with
  | ok stored =>
      obtain ⟨memory, found, rfl⟩ := State.write_eq_ok_iff.mp written
      simp [found]
  | error fault =>
      constructor
      · rintro ⟨⟩
      · rintro ⟨memory, found, -⟩
        rw [State.write_eq_ok_iff.mpr ⟨memory, found, rfl⟩] at written
        cases written

theorem execute_storeDecimal_eq_ok_iff {x : Register} :
    (storeDecimal x).execute dialect byte before = .ok after ↔
      ∃ memory, before.memory.write? before.index.toNat (decimalDigits (before.register x)) =
          some memory ∧ { before with memory }.next = after :=
  store_eq_ok_iff

theorem execute_storeRegisters_eq_ok_iff {last : Register} :
    (storeRegisters last).execute dialect byte before = .ok after ↔
      ∃ memory, before.memory.write? before.index.toNat
          (before.registers.toList.take (last.val + 1)) = some memory ∧
        { before with memory }.next.advanceIndex dialect last = after :=
  store_eq_ok_iff

theorem execute_loadRegisters_eq_ok_iff {last : Register} :
    (loadRegisters last).execute dialect byte before = .ok after ↔
      ∃ bytes, before.read before.index (last.val + 1) = .ok bytes ∧
        (before.next.replaceRegisters bytes).advanceIndex dialect last = after := by
  simp only [execute]
  split <;> simp_all

theorem exists_of_execute_loadRegisters {last : Register}
    (executed : (loadRegisters last).execute dialect byte before = .ok after) :
    ∃ registers index, after = { before.next with registers, index } := by
  obtain ⟨bytes, -, rfl⟩ := execute_loadRegisters_eq_ok_iff.mp executed
  exact ⟨_, _, State.advanceIndex_eq _ dialect last⟩

/-- The ways to change the call stack, the picture and its mark.  There is none to
change the keypad. -/
inductive Reshapes (before : State) : Instruction → State → Prop where
  | call {target : Address} {stack : CallStack} :
      before.stack.push? (before.pc + 2) = some stack →
      Reshapes before (.call target) { before with pc := UInt16.ofNat target.val, stack }
  | ret {popped : UInt16 × CallStack} : before.stack.pop? = some popped →
      Reshapes before .ret { before with pc := popped.1, stack := popped.2 }
  | clear : Reshapes before .clear { before.next with frame := .blank, redraw := true }
  | draw {x y : Register} {height : Fin 16} {sprite : List UInt8} :
      before.read before.index height.val = .ok sprite →
      Reshapes before (.draw x y height)
        (before.next.drawSprite (before.register x) (before.register y) sprite)
  | plain {instruction : Instruction} (registers : Vector UInt8 16) (index pc : UInt16)
      (delayTimer soundTimer : UInt8) (memory : Memory) :
      Reshapes before instruction
        { before with registers, index, pc, delayTimer, soundTimer, memory }

theorem reshapes_of_execute {instruction : Instruction}
    (executed : instruction.execute dialect byte before = .ok after) :
    Reshapes before instruction after := by
  cases instruction with
  | ret =>
      obtain ⟨popped, found, rfl⟩ := execute_ret_eq_ok_iff.mp executed
      exact .ret found
  | call target =>
      obtain ⟨stack, pushed, rfl⟩ := execute_call_eq_ok_iff.mp executed
      exact .call pushed
  | clear =>
      cases executed
      exact .clear
  | draw x y height =>
      obtain ⟨sprite, found, rfl⟩ := execute_draw_eq_ok_iff.mp executed
      exact .draw found
  | awaitKey x =>
      cases (execute_awaitKey x dialect byte before).symm.trans executed
      split <;> exact .plain ..
  | storeDecimal x =>
      obtain ⟨memory, -, rfl⟩ := execute_storeDecimal_eq_ok_iff.mp executed
      exact .plain ..
  | storeRegisters last =>
      obtain ⟨memory, -, rfl⟩ := execute_storeRegisters_eq_ok_iff.mp executed
      rw [State.advanceIndex_eq]
      exact .plain ..
  | loadRegisters last =>
      obtain ⟨registers, index, rfl⟩ := exists_of_execute_loadRegisters executed
      exact .plain ..
  | _ =>
      cases executed
      exact .plain ..

/-- The call stack changes by calls and returns only. -/
theorem stack_of_execute {instruction : Instruction}
    (executed : instruction.execute dialect byte before = .ok after) :
    after.stack = before.stack ∨
      (∃ target, instruction = .call target ∧
        before.stack.push? (before.pc + 2) = some after.stack) ∨
      instruction = .ret ∧ before.stack.pop? = some (after.pc, after.stack) := by
  cases reshapes_of_execute executed with
  | call pushed => exact Or.inr (Or.inl ⟨_, rfl, pushed⟩)
  | ret found => exact Or.inr (Or.inr ⟨rfl, found⟩)
  | clear | draw | plain => exact Or.inl rfl

/-- The picture and its mark change by clearing and drawing only, and both
raise the mark. -/
theorem frame_of_execute {instruction : Instruction}
    (executed : instruction.execute dialect byte before = .ok after) :
    (after.frame = before.frame ∧ after.redraw = before.redraw) ∨
      (instruction = .clear ∧ after.frame = .blank ∧ after.redraw = true) ∨
      ∃ x y height sprite, instruction = .draw x y height ∧
        before.read before.index height.val = .ok sprite ∧
        after.frame = before.frame.toggleAll
          (Sprite.points (before.register x).toNat (before.register y).toNat sprite) ∧
        after.redraw = true := by
  cases reshapes_of_execute executed with
  | clear => exact Or.inr (Or.inl ⟨rfl, rfl, rfl⟩)
  | draw found => exact Or.inr (Or.inr ⟨_, _, _, _, rfl, found, rfl, rfl⟩)
  | call | ret | plain => exact Or.inl ⟨rfl, rfl⟩

/-- Whether an instruction clears the picture or draws on it. -/
def redraws : Instruction → Bool
  | clear | draw _ _ _ => true
  | _ => false

theorem redraw_of_execute {instruction : Instruction}
    (executed : instruction.execute dialect byte before = .ok after) :
    after.redraw = (before.redraw || instruction.redraws) := by
  rcases frame_of_execute executed with ⟨-, same⟩ | ⟨rfl, -, raised⟩ | drawn
  · cases instruction with
    | clear =>
        cases executed
        exact (Bool.or_true _).symm
    | draw x y height =>
        obtain ⟨sprite, -, rfl⟩ := execute_draw_eq_ok_iff.mp executed
        exact (Bool.or_true _).symm
    | _ => exact same.trans (Bool.or_false _).symm
  · exact raised.trans (Bool.or_true _).symm
  · obtain ⟨x, y, height, sprite, rfl, -, -, raised⟩ := drawn
    exact raised.trans (Bool.or_true _).symm

theorem keypad_of_execute {instruction : Instruction}
    (executed : instruction.execute dialect byte before = .ok after) :
    after.keypad = before.keypad := by
  cases reshapes_of_execute executed <;> rfl

/-- Whether an instruction may go on elsewhere than at the next word. -/
def branches : Instruction → Bool
  | jump _ | jumpOffset _ | call _ | ret | skip _ | awaitKey _ => true
  | _ => false

theorem pc_of_straight {instruction : Instruction} (straight : instruction.branches = false)
    (executed : instruction.execute dialect byte before = .ok after) :
    after.pc = before.pc + 2 := by
  cases instruction with
  | jump | jumpOffset | call | ret | skip | awaitKey => cases straight
  | draw x y height =>
      obtain ⟨sprite, -, rfl⟩ := execute_draw_eq_ok_iff.mp executed
      rfl
  | storeDecimal x =>
      obtain ⟨memory, -, rfl⟩ := execute_storeDecimal_eq_ok_iff.mp executed
      rfl
  | storeRegisters last =>
      obtain ⟨memory, -, rfl⟩ := execute_storeRegisters_eq_ok_iff.mp executed
      rw [State.advanceIndex_eq]
      rfl
  | loadRegisters last =>
      obtain ⟨registers, index, rfl⟩ := exists_of_execute_loadRegisters executed
      rfl
  | _ =>
      cases executed
      rfl

/-- Where execution continues after a successful instruction. -/
theorem pc_of_execute {instruction : Instruction}
    (executed : instruction.execute dialect byte before = .ok after) :
    after.pc = before.pc ∨ after.pc = before.pc + 2 ∨ after.pc = before.pc + 4 ∨
      (∃ target : Address, after.pc = UInt16.ofNat target.val) ∨
      (∃ base : Address,
        after.pc = UInt16.ofNat base.val + (before.register .offset).toUInt16) ∨
      ∃ stack, before.stack.pop? = some (after.pc, stack) := by
  cases branching : instruction.branches with
  | false => exact Or.inr (Or.inl (pc_of_straight branching executed))
  | true =>
      cases instruction with
      | ret =>
          obtain ⟨popped, found, rfl⟩ := execute_ret_eq_ok_iff.mp executed
          exact Or.inr (Or.inr (Or.inr (Or.inr (Or.inr ⟨popped.2, found⟩))))
      | call target =>
          obtain ⟨stack, -, rfl⟩ := execute_call_eq_ok_iff.mp executed
          exact Or.inr (Or.inr (Or.inr (Or.inl ⟨target, rfl⟩)))
      | jump target =>
          cases executed
          exact Or.inr (Or.inr (Or.inr (Or.inl ⟨target, rfl⟩)))
      | jumpOffset base =>
          cases executed
          exact Or.inr (Or.inr (Or.inr (Or.inr (Or.inl ⟨base, rfl⟩))))
      | skip condition =>
          cases executed
          cases holds : condition.holds before with
          | false => exact Or.inr (Or.inl (by simp [State.skipIf]))
          | true => exact Or.inr (Or.inr (Or.inl (by simp [State.skipIf])))
      | awaitKey x =>
          cases (execute_awaitKey x dialect byte before).symm.trans executed
          split
          · exact Or.inr (Or.inl rfl)
          · exact Or.inl rfl
      | _ => cases branching

end Instruction

namespace Word

variable {dialect : Dialect} {byte : UInt8} {before after : State}

/-- Whether a word stands for an instruction that clears the picture or draws
on it. -/
def redraws (word : Word) : Bool :=
  word.decode.any Instruction.redraws

theorem redraw_of_execute {word : Word}
    (executed : word.execute dialect byte before = .ok after) :
    after.redraw = (before.redraw || word.redraws) := by
  unfold execute at executed
  split at executed
  · rename_i decoded
    simp only [Instruction.redraw_of_execute executed, redraws, decoded, Option.any_some]
  · rename_i undecoded
    cases executed
    simp only [redraws, undecoded, Option.any_none, Bool.or_false, State.redraw_next]

theorem keypad_of_execute {word : Word}
    (executed : word.execute dialect byte before = .ok after) :
    after.keypad = before.keypad := by
  unfold execute at executed
  split at executed
  · exact Instruction.keypad_of_execute executed
  · cases executed
    rfl

end Word

end ChipEight
