import ChipEight.Proofs.Assembling
import ChipEight.Proofs.Decoding
import ChipEight.Proofs.InPlace.Calls

/-!
# What the text of a word tells

The text of a word drops the digits that its instruction ignores and keeps all
others.  Reading it therefore returns what decoding the word returns, and words
with the same text are executed alike in every state.  A word that stands for no
instruction is shown whole, as data.
-/

namespace ChipEight

namespace Word

variable {word first second : Word} {instruction : Instruction}

theorem mnemonic_of_decode (decoded : word.decode = some instruction) :
    word.mnemonic = instruction.assembly.text := by
  simp only [mnemonic, assembly, decoded]

theorem mnemonic_of_undecoded (undecoded : word.decode = none) :
    word.mnemonic = "DW " ++ Text.hex 4 word.toNat := by
  simp only [mnemonic, assembly, undecoded, Assembly.text, String.intercalate_singleton]
  rfl

theorem read_data (word : Word) : Token.read (Text.hex 4 word.toNat) = .number 4 word.toNat :=
  Token.read_hex (by decide) word.toNat_lt

/-- No data is read as an instruction. -/
theorem ofText?_data (word : Word) :
    Instruction.ofText? ("DW " ++ Text.hex 4 word.toNat) = none := by
  have operation : Text.Unbroken "DW" := by decide
  have operands : ∀ operand ∈ [Text.hex 4 word.toNat], Text.Unbroken operand := by
    intro operand member
    rw [List.mem_singleton.mp member]
    exact Text.unbroken_hex ..
  have words := Assembly.words_text operation operands
  have text : Assembly.text ⟨"DW", [Text.hex 4 word.toNat]⟩ = "DW " ++ Text.hex 4 word.toNat := by
    simp only [Assembly.text, String.intercalate_singleton]
    rfl
  rw [Instruction.ofText?, ← text, words]
  simp only [List.map_cons, List.map_nil, read_data, Instruction.ofTokens?]

/-- Reading the text of a word returns what decoding the word returns. -/
theorem ofText?_mnemonic (word : Word) : Instruction.ofText? word.mnemonic = word.decode := by
  cases decoded : word.decode with
  | none => rw [mnemonic_of_undecoded decoded, ofText?_data]
  | some instruction => rw [mnemonic_of_decode decoded, Instruction.ofText?_text]

theorem mnemonic_eq_data_iff :
    word.mnemonic = "DW " ++ Text.hex 4 word.toNat ↔ word.decode = none := by
  constructor
  · intro shown
    rw [← ofText?_mnemonic, shown, ofText?_data]
  · exact mnemonic_of_undecoded

/-- Words have the same text if they stand for the same instruction, or are the
same data. -/
theorem mnemonic_eq_iff :
    first.mnemonic = second.mnemonic ↔
      first.decode = second.decode ∧ (first.decode = none → first = second) := by
  constructor
  · intro alike
    have sameDecode : first.decode = second.decode := by
      rw [← ofText?_mnemonic first, ← ofText?_mnemonic second, alike]
    refine ⟨sameDecode, ?_⟩
    intro undecoded
    rw [mnemonic_of_undecoded undecoded, mnemonic_of_undecoded (sameDecode ▸ undecoded),
      String.append_right_inj] at alike
    have sameToken := congrArg Token.read alike
    rw [read_data, read_data] at sameToken
    exact UInt16.toNat_inj.mp (Token.number.inj sameToken).2
  · rintro ⟨sameDecode, sameData⟩
    cases decoded : first.decode with
    | none => rw [sameData decoded]
    | some instruction =>
        rw [mnemonic_of_decode decoded, mnemonic_of_decode (sameDecode ▸ decoded)]

/-- The text of a word as its digits tell it. -/
def spelling (word : Word) : String :=
  let x := Operand.register word.x
  let y := Operand.register word.y
  let byte := Operand.byte word.byte
  let address := Operand.address word.address
  match word.family.val, word.y.val, word.digit.val with
  | 0x0, 0xE, 0x0 => "CLS"
  | 0x0, 0xE, 0xE => "RET"
  | 0x1, _, _ => s!"JP {address}"
  | 0x2, _, _ => s!"CALL {address}"
  | 0x3, _, _ => s!"SE {x}, {byte}"
  | 0x4, _, _ => s!"SNE {x}, {byte}"
  | 0x5, _, _ => s!"SE {x}, {y}"
  | 0x6, _, _ => s!"LD {x}, {byte}"
  | 0x7, _, _ => s!"ADD {x}, {byte}"
  | 0x8, _, 0x0 => s!"LD {x}, {y}"
  | 0x8, _, 0x1 => s!"OR {x}, {y}"
  | 0x8, _, 0x2 => s!"AND {x}, {y}"
  | 0x8, _, 0x3 => s!"XOR {x}, {y}"
  | 0x8, _, 0x4 => s!"ADD {x}, {y}"
  | 0x8, _, 0x5 => s!"SUB {x}, {y}"
  | 0x8, _, 0x6 => s!"SHR {x}"
  | 0x8, _, 0x7 => s!"SUBN {x}, {y}"
  | 0x8, _, 0xE => s!"SHL {x}"
  | 0x9, _, _ => s!"SNE {x}, {y}"
  | 0xA, _, _ => s!"LD I, {address}"
  | 0xB, _, _ => s!"JP V0, {address}"
  | 0xC, _, _ => s!"RND {x}, {byte}"
  | 0xD, _, _ => s!"DRW {x}, {y}, {Operand.height word.digit}"
  | 0xE, 0x9, 0xE => s!"SKP {x}"
  | 0xE, 0xA, 0x1 => s!"SKNP {x}"
  | 0xF, 0x0, 0x7 => s!"LD {x}, DT"
  | 0xF, 0x0, 0xA => s!"LD {x}, K"
  | 0xF, 0x1, 0x5 => s!"LD DT, {x}"
  | 0xF, 0x1, 0x8 => s!"LD ST, {x}"
  | 0xF, 0x1, 0xE => s!"ADD I, {x}"
  | 0xF, 0x2, 0x9 => s!"LD F, {x}"
  | 0xF, 0x3, 0x3 => s!"LD B, {x}"
  | 0xF, 0x5, 0x5 => s!"LD [I], {x}"
  | 0xF, 0x6, 0x5 => s!"LD {x}, [I]"
  | _, _, _ => s!"DW {Text.hex 4 word.toNat}"

theorem byte_eq_iff {value : UInt8} :
    word.byte = value ↔ word.y.val = value.toNat / 16 ∧ word.digit.val = value.toNat % 16 := by
  have valueLt := value.toNat_lt
  rw [← UInt8.toNat_inj]
  simp only [Word.y, Word.digit, Word.byte, UInt16.toNat_toUInt8]
  omega

theorem spelling_of_standsFor (listed : word.StandsFor instruction) :
    word.spelling = instruction.assembly.text := by
  apply String.toList_inj.mp
  cases listed with
  | clear family byte | ret family byte =>
      obtain ⟨y, digit⟩ := byte_eq_iff.mp byte
      simp [spelling, family, y, digit, Instruction.assembly, Assembly.text]
  | combine operation family digit =>
      cases operation <;> simp [spelling, family, digit, Combination.digit, Instruction.assembly,
        Combination.operationName, Assembly.text, toString]
  | arithmetic operation family digit =>
      cases operation <;> simp [spelling, family, digit, Arithmetic.digit, Instruction.assembly,
        Arithmetic.operationName, Assembly.text, toString]
  | shift direction family digit =>
      cases direction <;> simp [spelling, family, digit, Shift.digit, Instruction.assembly,
        Shift.operationName, Assembly.text, toString]
  | jumpOffset family =>
      have offset : Operand.register .offset = "V0" := by decide
      simp [spelling, family, Instruction.assembly, Assembly.text, offset, toString]
  | keyDown family byte | keyUp family byte =>
      obtain ⟨y, digit⟩ := byte_eq_iff.mp byte
      simp [spelling, family, y, digit, Instruction.assembly, Condition.assembly, Assembly.text,
        toString]
  | loadDelay family byte | awaitKey family byte | setDelay family byte | setSound family byte
    | addIndex family byte | loadGlyph family byte | storeDecimal family byte
    | storeRegisters family byte | loadRegisters family byte =>
      obtain ⟨y, digit⟩ := byte_eq_iff.mp byte
      simp [spelling, family, y, digit, Instruction.assembly, Assembly.text, toString]
  | _ family =>
      simp [spelling, family, Instruction.assembly, Condition.assembly, Assembly.text, toString]

theorem spelling_of_unlisted (unlisted : ∀ instruction, ¬word.StandsFor instruction) :
    word.spelling = "DW " ++ Text.hex 4 word.toNat := by
  unfold spelling
  extract_lets x y byte address
  have refuted : ∀ {instruction : Instruction} {text : String}, word.StandsFor instruction →
      text = "DW " ++ Text.hex 4 word.toNat :=
    fun listed => (unlisted _ listed).elim
  split
  · exact refuted (.clear ‹_› (byte_eq_iff.mpr ⟨‹_›, ‹_›⟩))
  · exact refuted (.ret ‹_› (byte_eq_iff.mpr ⟨‹_›, ‹_›⟩))
  · exact refuted (.jump ‹_›)
  · exact refuted (.call ‹_›)
  · exact refuted (.equalsByte ‹_›)
  · exact refuted (.differsFromByte ‹_›)
  · exact refuted (.equalsRegister ‹_›)
  · exact refuted (.load ‹_›)
  · exact refuted (.addByte ‹_›)
  · exact refuted (.combine .copy ‹_› ‹_›)
  · exact refuted (.combine .or ‹_› ‹_›)
  · exact refuted (.combine .and ‹_› ‹_›)
  · exact refuted (.combine .xor ‹_› ‹_›)
  · exact refuted (.arithmetic .add ‹_› ‹_›)
  · exact refuted (.arithmetic .subtract ‹_› ‹_›)
  · exact refuted (.shift .right ‹_› ‹_›)
  · exact refuted (.arithmetic .subtractFrom ‹_› ‹_›)
  · exact refuted (.shift .left ‹_› ‹_›)
  · exact refuted (.differsFromRegister ‹_›)
  · exact refuted (.loadIndex ‹_›)
  · exact refuted (.jumpOffset ‹_›)
  · exact refuted (.random ‹_›)
  · exact refuted (.draw ‹_›)
  · exact refuted (.keyDown ‹_› (byte_eq_iff.mpr ⟨‹_›, ‹_›⟩))
  · exact refuted (.keyUp ‹_› (byte_eq_iff.mpr ⟨‹_›, ‹_›⟩))
  · exact refuted (.loadDelay ‹_› (byte_eq_iff.mpr ⟨‹_›, ‹_›⟩))
  · exact refuted (.awaitKey ‹_› (byte_eq_iff.mpr ⟨‹_›, ‹_›⟩))
  · exact refuted (.setDelay ‹_› (byte_eq_iff.mpr ⟨‹_›, ‹_›⟩))
  · exact refuted (.setSound ‹_› (byte_eq_iff.mpr ⟨‹_›, ‹_›⟩))
  · exact refuted (.addIndex ‹_› (byte_eq_iff.mpr ⟨‹_›, ‹_›⟩))
  · exact refuted (.loadGlyph ‹_› (byte_eq_iff.mpr ⟨‹_›, ‹_›⟩))
  · exact refuted (.storeDecimal ‹_› (byte_eq_iff.mpr ⟨‹_›, ‹_›⟩))
  · exact refuted (.storeRegisters ‹_› (byte_eq_iff.mpr ⟨‹_›, ‹_›⟩))
  · exact refuted (.loadRegisters ‹_› (byte_eq_iff.mpr ⟨‹_›, ‹_›⟩))
  · rfl

/-- The text of a word, told by its digits alone. -/
theorem mnemonic_eq_spelling (word : Word) : word.mnemonic = word.spelling := by
  cases decoded : word.decode with
  | none =>
      rw [mnemonic_of_undecoded decoded, spelling_of_unlisted (decode_eq_none_iff.mp decoded)]
  | some instruction =>
      rw [mnemonic_of_decode decoded, spelling_of_standsFor (standsFor_of_decode decoded)]

example : (0xD125 : Word).mnemonic = "DRW V1, V2, 5" := by decide

theorem execute_congr (alike : first.mnemonic = second.mnemonic) (dialect : Dialect)
    (byte : UInt8) (state : State) :
    first.execute dialect byte state = second.execute dialect byte state := by
  simp only [execute, (mnemonic_eq_iff.mp alike).1]

theorem drawsRandom_congr (alike : first.mnemonic = second.mnemonic) :
    first.drawsRandom = second.drawsRandom := by
  simp only [drawsRandom, (mnemonic_eq_iff.mp alike).1]

theorem inPlace_congr (alike : first.mnemonic = second.mnemonic) :
    Effect.execute first = Effect.execute second := by
  obtain ⟨sameDecode, sameData⟩ := mnemonic_eq_iff.mp alike
  cases decoded : first.decode with
  | none => rw [sameData decoded]
  | some instruction => simp only [Effect.execute, ← sameDecode, decoded]

end Word

theorem Effect.warnings_eq_singleton_iff {word : Word} {pc : UInt16} :
    warnings word pc = [.unknownWord word pc] ↔ word.decode = none := by
  unfold warnings
  cases word.decode <;> simp

theorem Machine.step_eq_skip_iff {machine : Machine} {word : Word}
    (fetched : machine.state.fetch = .ok word) :
    machine.step = ⟨.ok (),
        { machine with
          state := machine.state.next
          history := machine.history.record machine.config.history machine.state },
        (if machine.config.trace then [machine.state.traceNotice word] else []) ++
          [.unknownWord word machine.state.pc]⟩ ↔
      word.decode = none := by
  constructor
  · intro stepped
    have logged := machine.log_step
    rw [stepped, fetched] at logged
    exact Effect.warnings_eq_singleton_iff.mp (List.append_cancel_left logged).symm
  · intro undecoded
    rw [step_of_executed fetched (Word.execute_of_undecoded undecoded _ _ _)]
    simp [advance, stepLog, Word.drawsRandom, undecoded]

/-- In place, executing a word moves on and warns of the word exactly if it stands
for no instruction. -/
theorem Effect.outcome_execute_eq_skip_iff {bench : Bench} {word : Word}
    (inside : bench.machine.state.pc.toNat + 2 ≤ Memory.size)
    (depth_le : bench.machine.state.stack.depth ≤ CallStack.capacity) :
    outcome (execute word) bench =
        (.ok (), { bench.withState bench.machine.state.next with
          log := bench.log ++ [.unknownWord word bench.machine.state.pc] }) ↔
      word.decode = none := by
  rw [outcome_execute bench word inside depth_le]
  constructor
  · intro executed
    split at executed
    · have logged := congrArg Bench.log (Prod.mk.inj executed).2
      exact warnings_eq_singleton_iff.mp (List.append_cancel_left logged)
    · cases executed
  · intro undecoded
    rw [Word.execute_of_undecoded undecoded, warnings_eq_singleton_iff.mpr undecoded]
    simp [Word.drawsRandom, undecoded]

namespace Word

/-- Words with the same text are executed alike in every state, in place as well, and those
shown as data are the ones that are skipped with a warning. -/
theorem mnemonic_tells_execution :
    (∀ word : Word, word.mnemonic = word.spelling ∧
        Instruction.ofText? word.mnemonic = word.decode) ∧
      (∀ first second : Word, first.mnemonic = second.mnemonic →
        (∀ (dialect : Dialect) (byte : UInt8) (state : State),
          first.execute dialect byte state = second.execute dialect byte state) ∧
        first.drawsRandom = second.drawsRandom ∧
        ∀ bench : Bench, Effect.outcome (Effect.execute first) bench =
          Effect.outcome (Effect.execute second) bench) ∧
      ∀ word : Word,
        (word.mnemonic = "DW " ++ Text.hex 4 word.toNat ↔ word.decode = none) ∧
        (∀ machine : Machine, machine.state.fetch = .ok word →
          (word.decode = none ↔
            machine.step = ⟨.ok (),
              { machine with
                state := machine.state.next
                history := machine.history.record machine.config.history machine.state },
              (if machine.config.trace then [machine.state.traceNotice word] else []) ++
                [.unknownWord word machine.state.pc]⟩)) ∧
        ∀ bench : Bench, bench.machine.state.pc.toNat + 2 ≤ Memory.size →
          bench.machine.state.stack.depth ≤ CallStack.capacity →
            (word.decode = none ↔
              Effect.outcome (Effect.execute word) bench =
                (.ok (), { bench.withState bench.machine.state.next with
                  log := bench.log ++ [.unknownWord word bench.machine.state.pc] })) := by
  refine ⟨?_, ?_, ?_⟩
  · intro word
    exact ⟨word.mnemonic_eq_spelling, word.ofText?_mnemonic⟩
  · intro first second alike
    refine ⟨execute_congr alike, drawsRandom_congr alike, ?_⟩
    intro bench
    rw [inPlace_congr alike]
  · intro word
    refine ⟨mnemonic_eq_data_iff, ?_, ?_⟩
    · intro machine fetched
      exact (Machine.step_eq_skip_iff fetched).symm
    · intro bench inside depth_le
      exact (Effect.outcome_execute_eq_skip_iff inside depth_le).symm

/-- Two shifts that differ in the register which they ignore have the same text,
and a program of one unknown word is skipped with a warning. -/
theorem mnemonic_tells_execution_skipping :
    let machine := (Machine.new { trace := true } (.cycle #[])).performAll [.load #[0x81, 0x2F]]
    (0x8016 : Word).mnemonic = (0x80F6 : Word).mnemonic ∧
      (∀ bench, Effect.outcome (Effect.execute 0x8016) bench =
        Effect.outcome (Effect.execute 0x80F6) bench) ∧
      machine.state.fetch = .ok 0x812F ∧
      machine.step.value = .ok () ∧
      .unknownWord 0x812F 0x200 ∈ machine.step.log ∧
      machine.state.pc.toNat + 2 ≤ Memory.size ∧
      machine.state.stack.depth ≤ CallStack.capacity ∧
      (Effect.outcome (Effect.execute 0x812F) ⟨machine, []⟩).2.log =
        [.unknownWord 0x812F 0x200] := by
  intro machine
  have sameDecode : (0x8016 : Word).decode = (0x80F6 : Word).decode := by decide
  have decoded : (0x8016 : Word).decode ≠ none := by decide
  have alike : (0x8016 : Word).mnemonic = (0x80F6 : Word).mnemonic :=
    mnemonic_eq_iff.mpr ⟨sameDecode, fun undecoded => (decoded undecoded).elim⟩
  have undecoded : (0x812F : Word).decode = none := by decide
  have first : #[(0x81 : UInt8), 0x2F][0]? = some 0x81 := rfl
  have second : #[(0x81 : UInt8), 0x2F][1]? = some 0x2F := rfl
  have fetched : machine.state.fetch = .ok 0x812F := State.fetch_boot first second
  have inside : machine.state.pc.toNat + 2 ≤ Memory.size := State.pc_add_two_le_of_fetch fetched
  have depth_le : machine.state.stack.depth ≤ CallStack.capacity := Nat.zero_le _
  obtain ⟨-, alikeExecuted, shown⟩ := mnemonic_tells_execution
  obtain ⟨-, skipped, skippedInPlace⟩ := shown 0x812F
  have stepped := (skipped machine fetched).mp undecoded
  have executed := (skippedInPlace ⟨machine, []⟩ inside depth_le).mp undecoded
  refine ⟨alike, (alikeExecuted _ _ alike).2.2, fetched, ?_, ?_, inside, depth_le, ?_⟩
  · rw [stepped]
  · rw [stepped]
    exact List.mem_append_right _ List.mem_cons_self
  · rw [executed]
    rfl

end Word

end ChipEight
