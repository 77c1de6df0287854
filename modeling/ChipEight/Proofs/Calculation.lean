import ChipEight.Proofs.Confinement

/-!
# Calculating with a flag

The words `8xy4` to `8xy7` and `8xyE` split an exact integer into a byte and a
flag: the sum of two registers into its low byte and a carry, a difference into a
byte and the absence of a borrow, and a shifted register into a byte and the bit
that left it.  Each is described by one equation between the operands, the byte
and the flag, which settles both.
-/

namespace ChipEight

namespace Word

/-- The equations of the words that calculate, by their last digit. -/
inductive Balances (word : Word) (first second result flag : Int) : Prop where
  | sum : word.digit.val = 0x4 → first + second = 256 * flag + result →
      word.Balances first second result flag
  | difference : word.digit.val = 0x5 → first - second = result - 256 * (1 - flag) →
      word.Balances first second result flag
  | shiftRight : word.digit.val = 0x6 → first = 2 * result + flag →
      word.Balances first second result flag
  | differenceFrom : word.digit.val = 0x7 → second - first = result - 256 * (1 - flag) →
      word.Balances first second result flag
  | shiftLeft : word.digit.val = 0xE → 2 * first = 256 * flag + result →
      word.Balances first second result flag

/-- The operands settle the result and the flag. -/
theorem Balances.unique {word : Word} {first second result flag otherResult otherFlag : Int}
    (balances : word.Balances first second result flag)
    (otherBalances : word.Balances first second otherResult otherFlag)
    (byte : 0 ≤ result ∧ result ≤ 255) (otherByte : 0 ≤ otherResult ∧ otherResult ≤ 255)
    (bit : flag = 0 ∨ flag = 1) (otherBit : otherFlag = 0 ∨ otherFlag = 1) :
    otherResult = result ∧ otherFlag = flag := by
  cases balances <;> cases otherBalances <;> omega

end Word

theorem Arithmetic.balances_apply {word : Word} {operation : Arithmetic}
    (digit : word.digit.val = operation.digit) (first second : UInt8) :
    word.Balances first.toNat second.toNat (operation.apply first second).1.toNat
      (operation.apply first second).2.toNat := by
  have firstLt := first.toNat_lt
  have secondLt := second.toNat_lt
  cases operation with
  | add =>
      apply Word.Balances.sum digit
      simp only [apply, UInt8.toNat_add]
      by_cases carries : 256 ≤ first.toNat + second.toNat
      · simp only [carries, decide_true, Bool.toNat_true]
        omega
      · simp only [carries, decide_false, Bool.toNat_false]
        omega
  | subtract =>
      apply Word.Balances.difference digit
      simp only [apply, UInt8.toNat_sub, UInt8.le_iff_toNat_le]
      by_cases covers : second.toNat ≤ first.toNat
      · simp only [covers, decide_true, Bool.toNat_true]
        omega
      · simp only [covers, decide_false, Bool.toNat_false]
        omega
  | subtractFrom =>
      apply Word.Balances.differenceFrom digit
      simp only [apply, UInt8.toNat_sub, UInt8.le_iff_toNat_le]
      by_cases covers : first.toNat ≤ second.toNat
      · simp only [covers, decide_true, Bool.toNat_true]
        omega
      · simp only [covers, decide_false, Bool.toNat_false]
        omega

theorem Shift.balances_apply {word : Word} {direction : Shift}
    (digit : word.digit.val = direction.digit) (first second : UInt8) :
    word.Balances first.toNat second.toNat (direction.apply first).1.toNat
      (direction.apply first).2.toNat := by
  have firstLt := first.toNat_lt
  cases direction with
  | right =>
      apply Word.Balances.shiftRight digit
      have halved : (first >>> 1).toNat = first.toNat / 2 := UInt8.toNat_shiftRight first 1
      have lowBit : (first.toNat.testBit 0).toNat = first.toNat % 2 := by
        rw [Nat.toNat_testBit, Nat.pow_zero, Nat.div_one]
      simp only [apply, halved, lowBit]
      omega
  | left =>
      apply Word.Balances.shiftLeft digit
      have doubled : (first <<< 1).toNat = first.toNat * 2 % 256 :=
        (UInt8.toNat_shiftLeft first 1).trans (congrArg (· % 256) (Nat.shiftLeft_eq ..))
      have highBit : (first.toNat.testBit 7).toNat = first.toNat / 128 % 2 :=
        Nat.toNat_testBit ..
      simp only [apply, doubled, highBit]
      omega

namespace Word

variable {word : Word} {dialect : Dialect} {byte : UInt8} {before after : State}

theorem decode_of_calculates (family : word.family.val = 0x8) (calculates : word.Calculates) :
    (∃ operation : Arithmetic, word.digit.val = operation.digit ∧
        word.decode = some (.arithmetic operation word.x word.y)) ∨
      ∃ direction : Shift, word.digit.val = direction.digit ∧
        word.decode = some (.shift direction word.x) := by
  have arithmetic : ∀ operation : Arithmetic, word.digit.val = operation.digit →
      word.decode = some (.arithmetic operation word.x word.y) :=
    fun operation digit => decode_of_standsFor (.arithmetic operation family digit)
  have shift : ∀ direction : Shift, word.digit.val = direction.digit →
      word.decode = some (.shift direction word.x) :=
    fun direction digit => decode_of_standsFor (.shift direction family digit)
  have listed : word.digit.val = 0x4 ∨ word.digit.val = 0x5 ∨ word.digit.val = 0x6 ∨
      word.digit.val = 0x7 ∨ word.digit.val = 0xE := by
    unfold Calculates at calculates
    omega
  rcases listed with digit | digit | digit | digit | digit
  · exact Or.inl ⟨.add, digit, arithmetic .add digit⟩
  · exact Or.inl ⟨.subtract, digit, arithmetic .subtract digit⟩
  · exact Or.inr ⟨.right, digit, shift .right digit⟩
  · exact Or.inl ⟨.subtractFrom, digit, arithmetic .subtractFrom digit⟩
  · exact Or.inr ⟨.left, digit, shift .left digit⟩

/-- A word that calculates writes a result and a flag that balance its operands. -/
theorem exists_setFlagged_of_calculates (family : word.family.val = 0x8)
    (calculates : word.Calculates) (dialect : Dialect) (byte : UInt8) (before : State) :
    ∃ (result : UInt8) (flag : Bool),
      word.execute dialect byte before = .ok (before.next.setFlagged word.x result flag) ∧
      word.Balances (before.register word.x).toNat (before.register word.y).toNat result.toNat
        flag.toNat ∧
      ∀ (instruction : Instruction) (bench : Bench), word.decode = some instruction →
        Effect.outcome (instruction.inPlace dialect) (bench.withState before.next) =
          (.ok (), bench.withState (before.next.setFlagged word.x result flag)) := by
  rcases decode_of_calculates family calculates with
    ⟨operation, digit, decoded⟩ | ⟨direction, digit, decoded⟩
  · refine ⟨_, _, ?_, operation.balances_apply digit _ _, ?_⟩
    · simp only [execute, decoded, Instruction.execute]
    · intro instruction bench found
      cases decoded.symm.trans found
      simp [Instruction.inPlace]
  · refine ⟨_, _, ?_, direction.balances_apply digit _ _, ?_⟩
    · simp only [execute, decoded, Instruction.execute]
    · intro instruction bench found
      cases decoded.symm.trans found
      simp [Instruction.inPlace]

/-- A word that shifts is executed in the same way with every second register. -/
theorem execute_eq_of_shift {other : Word} (family : word.family.val = 0x8)
    (shifts : word.digit.val = 0x6 ∨ word.digit.val = 0xE) (otherFamily : other.family.val = 0x8)
    (sameDigit : other.digit = word.digit) (sameRegister : other.x = word.x) :
    other.execute dialect byte before = word.execute dialect byte before := by
  obtain ⟨direction, digit⟩ : ∃ direction : Shift, word.digit.val = direction.digit := by
    rcases shifts with right | left
    · exact ⟨.right, right⟩
    · exact ⟨.left, left⟩
  have otherDigit : other.digit.val = direction.digit := by rw [sameDigit, digit]
  simp only [execute, decode_of_standsFor (.shift direction family digit),
    decode_of_standsFor (.shift direction otherFamily otherDigit), sameRegister]

/-- A word that calculates is never refused and leaves the one byte and the one bit that
balance its operands, the byte where both have the same register.  In place it leaves
the same. -/
theorem calculates_exactly {word : Word} (family : word.family.val = 0x8)
    (calculates : word.Calculates) (dialect : Dialect) (byte : UInt8) (before : State) :
    let first := (before.register word.x).toNat
    let second := (before.register word.y).toNat
    ∃ (after : State) (result flag : Nat),
      word.execute dialect byte before = .ok after ∧
      result ≤ 255 ∧ (flag = 0 ∨ flag = 1) ∧ word.Balances first second result flag ∧
      (∀ otherResult otherFlag : Int, 0 ≤ otherResult ∧ otherResult ≤ 255 →
        otherFlag = 0 ∨ otherFlag = 1 → word.Balances first second otherResult otherFlag →
          otherResult = result ∧ otherFlag = flag) ∧
      (after.register word.x).toNat = result ∧
      (after.register .flag).toNat = (if word.x = .flag then result else flag) ∧
      (∀ register, register ≠ word.x → register ≠ .flag →
        after.register register = before.register register) ∧
      after = { before with pc := before.pc + 2, registers := after.registers } ∧
      (word.digit.val = 0x6 ∨ word.digit.val = 0xE → ∀ other : Word, other.family.val = 0x8 →
        other.digit = word.digit → other.x = word.x →
          other.execute dialect byte before = .ok after) ∧
      ∀ (instruction : Instruction) (bench : Bench), word.decode = some instruction →
        Effect.outcome (instruction.inPlace dialect) (bench.withState before.next) =
          (.ok (), bench.withState after) := by
  intro first second
  obtain ⟨result, flag, executed, balances, inPlace⟩ :=
    exists_setFlagged_of_calculates family calculates dialect byte before
  have resultLe : result.toNat ≤ 255 := Nat.le_of_lt_succ result.toNat_lt
  have flagBit : flag.toNat = 0 ∨ flag.toNat = 1 := by cases flag <;> decide
  have written : (before.next.setFlagged word.x result flag).register word.x = result :=
    State.register_setRegister_self ..
  refine ⟨_, result.toNat, flag.toNat, executed, resultLe, flagBit, balances, ?_,
    congrArg UInt8.toNat written, ?_, ?_, rfl, ?_, inPlace⟩
  · intro otherResult otherFlag otherByte otherBit otherBalances
    apply balances.unique otherBalances _ otherByte _ otherBit
    · omega
    · omega
  · split
    · rename_i aliased
      rw [← aliased, written]
    · rename_i apart
      have flagKept : (before.next.setFlagged word.x result flag).register .flag =
          (before.next.setRegister .flag flag.toUInt8).register .flag :=
        Location.same_setRegister (fun same => apart (Location.register.inj same).symm) _ result
      rw [flagKept, State.register_setRegister_self]
      cases flag <;> rfl
  · intro register other unflagged
    exact Location.same_setFlagged (fun same => other (Location.register.inj same))
      (fun same => unflagged (Location.register.inj same)) before.next result flag
  · intro shifts other otherFamily sameDigit sameRegister
    rw [execute_eq_of_shift family shifts otherFamily sameDigit sameRegister, executed]

/-- A state in which the flag register holds three and the register behind `V0`
five. -/
def indebted : State :=
  (State.initial.setRegister .flag 3).setRegister (Word.y 0x8F15) 5

/-- Five is taken from the flag register, which ends up with the result and not
with the flag. -/
theorem calculates_exactly_borrowing :
    let word : Word := 0x8F15
    word.family.val = 0x8 ∧ word.Calculates ∧
      ∃ after, word.execute {} 0 indebted = .ok after ∧ (after.register .flag).toNat = 254 := by
  intro word
  have family : word.family.val = 0x8 := by decide
  have calculates : word.Calculates := Or.inl (by decide)
  refine ⟨family, calculates, ?_⟩
  obtain ⟨after, result, flag, executed, -, -, -, unique, -, flagged, -⟩ :=
    calculates_exactly family calculates {} 0 indebted
  have first : (indebted.register word.x).toNat = 3 := by decide
  have second : (indebted.register word.y).toNat = 5 := by decide
  have borrows : word.Balances 3 5 254 0 := .difference (by decide) (by decide)
  rw [first, second] at unique
  have resultEq := (unique 254 0 (by decide) (by decide) borrows).1
  have aliased : word.x = .flag := by decide
  rw [if_pos aliased] at flagged
  exact ⟨after, executed, by omega⟩

end Word

end ChipEight
