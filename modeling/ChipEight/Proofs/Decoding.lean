import ChipEight.Instruction.Execute

/-!
# Which words stand for an instruction

The instruction set is a table with one line for each pattern of digits, and a
word stands for an instruction exactly if one of the lines says so.  Whatever is
known about an instruction can thus be told by the digits of its words: calls
are the words `2nnn`, returns the words `0_EE` and random loads the words `Cxkk`.
-/

namespace ChipEight

def Condition.family : Condition → Nat
  | equalsByte _ _ => 0x3
  | differsFromByte _ _ => 0x4
  | equalsRegister _ _ => 0x5
  | differsFromRegister _ _ => 0x9
  | keyDown _ | keyUp _ => 0xE

def Instruction.family : Instruction → Nat
  | clear | ret => 0x0
  | jump _ => 0x1
  | call _ => 0x2
  | skip condition => condition.family
  | load _ _ => 0x6
  | addByte _ _ => 0x7
  | combine _ _ _ | arithmetic _ _ _ | shift _ _ => 0x8
  | loadIndex _ => 0xA
  | jumpOffset _ => 0xB
  | random _ _ => 0xC
  | draw _ _ _ => 0xD
  | loadDelay _ | awaitKey _ | setDelay _ | setSound _ | addIndex _ | loadGlyph _
    | storeDecimal _ | storeRegisters _ | loadRegisters _ => 0xF

def Combination.digit : Combination → Nat
  | copy => 0x0
  | or => 0x1
  | and => 0x2
  | xor => 0x3

def Arithmetic.digit : Arithmetic → Nat
  | add => 0x4
  | subtract => 0x5
  | subtractFrom => 0x7

def Shift.digit : Shift → Nat
  | right => 0x6
  | left => 0xE

namespace Word

variable {word : Word} {instruction : Instruction}

/-- The table of the instruction set.  Digits that a line does not mention are
ignored. -/
inductive StandsFor (word : Word) : Instruction → Prop where
  | clear : word.family.val = 0x0 → word.byte = 0xE0 → word.StandsFor .clear
  | ret : word.family.val = 0x0 → word.byte = 0xEE → word.StandsFor .ret
  | jump : word.family.val = 0x1 → word.StandsFor (.jump word.address)
  | call : word.family.val = 0x2 → word.StandsFor (.call word.address)
  | equalsByte : word.family.val = 0x3 →
      word.StandsFor (.skip (.equalsByte word.x word.byte))
  | differsFromByte : word.family.val = 0x4 →
      word.StandsFor (.skip (.differsFromByte word.x word.byte))
  | equalsRegister : word.family.val = 0x5 →
      word.StandsFor (.skip (.equalsRegister word.x word.y))
  | load : word.family.val = 0x6 → word.StandsFor (.load word.x word.byte)
  | addByte : word.family.val = 0x7 → word.StandsFor (.addByte word.x word.byte)
  | combine (operation : Combination) :
      word.family.val = 0x8 → word.digit.val = operation.digit →
        word.StandsFor (.combine operation word.x word.y)
  | arithmetic (operation : Arithmetic) :
      word.family.val = 0x8 → word.digit.val = operation.digit →
        word.StandsFor (.arithmetic operation word.x word.y)
  | shift (direction : Shift) :
      word.family.val = 0x8 → word.digit.val = direction.digit →
        word.StandsFor (.shift direction word.x)
  | differsFromRegister : word.family.val = 0x9 →
      word.StandsFor (.skip (.differsFromRegister word.x word.y))
  | loadIndex : word.family.val = 0xA → word.StandsFor (.loadIndex word.address)
  | jumpOffset : word.family.val = 0xB → word.StandsFor (.jumpOffset word.address)
  | random : word.family.val = 0xC → word.StandsFor (.random word.x word.byte)
  | draw : word.family.val = 0xD → word.StandsFor (.draw word.x word.y word.digit)
  | keyDown : word.family.val = 0xE → word.byte = 0x9E →
      word.StandsFor (.skip (.keyDown word.x))
  | keyUp : word.family.val = 0xE → word.byte = 0xA1 →
      word.StandsFor (.skip (.keyUp word.x))
  | loadDelay : word.family.val = 0xF → word.byte = 0x07 → word.StandsFor (.loadDelay word.x)
  | awaitKey : word.family.val = 0xF → word.byte = 0x0A → word.StandsFor (.awaitKey word.x)
  | setDelay : word.family.val = 0xF → word.byte = 0x15 → word.StandsFor (.setDelay word.x)
  | setSound : word.family.val = 0xF → word.byte = 0x18 → word.StandsFor (.setSound word.x)
  | addIndex : word.family.val = 0xF → word.byte = 0x1E → word.StandsFor (.addIndex word.x)
  | loadGlyph : word.family.val = 0xF → word.byte = 0x29 → word.StandsFor (.loadGlyph word.x)
  | storeDecimal : word.family.val = 0xF → word.byte = 0x33 →
      word.StandsFor (.storeDecimal word.x)
  | storeRegisters : word.family.val = 0xF → word.byte = 0x55 →
      word.StandsFor (.storeRegisters word.x)
  | loadRegisters : word.family.val = 0xF → word.byte = 0x65 →
      word.StandsFor (.loadRegisters word.x)

theorem standsFor_of_decodeControl (family : word.family.val = 0x0)
    (decoded : word.decodeControl = some instruction) : word.StandsFor instruction := by
  unfold decodeControl at decoded
  split at decoded <;> cases decoded
  · exact .clear family ‹_›
  · exact .ret family ‹_›

theorem standsFor_of_decodeRegisters (family : word.family.val = 0x8)
    (decoded : word.decodeRegisters = some instruction) : word.StandsFor instruction := by
  unfold decodeRegisters at decoded
  split at decoded <;> cases decoded
  · exact .combine .copy family ‹_›
  · exact .combine .or family ‹_›
  · exact .combine .and family ‹_›
  · exact .combine .xor family ‹_›
  · exact .arithmetic .add family ‹_›
  · exact .arithmetic .subtract family ‹_›
  · exact .shift .right family ‹_›
  · exact .arithmetic .subtractFrom family ‹_›
  · exact .shift .left family ‹_›

theorem standsFor_of_decodeKey (family : word.family.val = 0xE)
    (decoded : word.decodeKey = some instruction) : word.StandsFor instruction := by
  unfold decodeKey at decoded
  split at decoded <;> cases decoded
  · exact .keyDown family ‹_›
  · exact .keyUp family ‹_›

theorem standsFor_of_decodeDevice (family : word.family.val = 0xF)
    (decoded : word.decodeDevice = some instruction) : word.StandsFor instruction := by
  unfold decodeDevice at decoded
  split at decoded <;> cases decoded
  · exact .loadDelay family ‹_›
  · exact .awaitKey family ‹_›
  · exact .setDelay family ‹_›
  · exact .setSound family ‹_›
  · exact .addIndex family ‹_›
  · exact .loadGlyph family ‹_›
  · exact .storeDecimal family ‹_›
  · exact .storeRegisters family ‹_›
  · exact .loadRegisters family ‹_›

theorem standsFor_of_decode (decoded : word.decode = some instruction) :
    word.StandsFor instruction := by
  unfold decode at decoded
  split at decoded
  case h_1 family => exact standsFor_of_decodeControl family decoded
  case h_9 family => exact standsFor_of_decodeRegisters family decoded
  case h_15 family => exact standsFor_of_decodeKey family decoded
  case h_16 family => exact standsFor_of_decodeDevice family decoded
  all_goals cases decoded
  · exact .jump ‹_›
  · exact .call ‹_›
  · exact .equalsByte ‹_›
  · exact .differsFromByte ‹_›
  · exact .equalsRegister ‹_›
  · exact .load ‹_›
  · exact .addByte ‹_›
  · exact .differsFromRegister ‹_›
  · exact .loadIndex ‹_›
  · exact .jumpOffset ‹_›
  · exact .random ‹_›
  · exact .draw ‹_›

theorem decode_of_standsFor (listed : word.StandsFor instruction) :
    word.decode = some instruction := by
  cases listed with
  | combine operation family digit =>
      cases operation <;> simp only [decode, decodeRegisters, family, digit, Combination.digit]
  | arithmetic operation family digit =>
      cases operation <;> simp only [decode, decodeRegisters, family, digit, Arithmetic.digit]
  | shift direction family digit =>
      cases direction <;> simp only [decode, decodeRegisters, family, digit, Shift.digit]
  | clear family byte | ret family byte =>
      simp only [decode, decodeControl, family, byte]
  | keyDown family byte | keyUp family byte =>
      simp only [decode, decodeKey, family, byte]
  | loadDelay family byte | awaitKey family byte | setDelay family byte | setSound family byte
    | addIndex family byte | loadGlyph family byte | storeDecimal family byte
    | storeRegisters family byte | loadRegisters family byte =>
      simp only [decode, decodeDevice, family, byte]
  | _ family => simp only [decode, family]

/-- A word stands for an instruction exactly if the table says so. -/
theorem decode_eq_some_iff : word.decode = some instruction ↔ word.StandsFor instruction :=
  ⟨standsFor_of_decode, decode_of_standsFor⟩

theorem decode_eq_none_iff :
    word.decode = none ↔ ∀ instruction, ¬word.StandsFor instruction := by
  simp only [Option.eq_none_iff_forall_ne_some, ne_eq, decode_eq_some_iff]

theorem family_of_decode (decoded : word.decode = some instruction) :
    word.family.val = instruction.family := by
  cases standsFor_of_decode decoded <;> assumption

theorem execute_of_undecoded (undecoded : word.decode = none) (dialect : Dialect) (byte : UInt8)
    (state : State) : word.execute dialect byte state = .ok state.next := by
  simp only [execute, undecoded]

theorem decode_eq_call_iff {target : Address} :
    word.decode = some (.call target) ↔ word.family.val = 0x2 ∧ word.address = target := by
  rw [decode_eq_some_iff]
  constructor
  · rintro ⟨⟩
    exact ⟨‹_›, rfl⟩
  · rintro ⟨family, rfl⟩
    exact .call family

theorem decode_eq_ret_iff :
    word.decode = some .ret ↔ word.family.val = 0x0 ∧ word.byte = 0xEE := by
  rw [decode_eq_some_iff]
  constructor
  · rintro ⟨⟩
    exact ⟨‹_›, ‹_›⟩
  · rintro ⟨family, byte⟩
    exact .ret family byte

theorem decode_eq_random_iff {x : Register} {mask : UInt8} :
    word.decode = some (.random x mask) ↔
      word.family.val = 0xC ∧ word.x = x ∧ word.byte = mask := by
  rw [decode_eq_some_iff]
  constructor
  · rintro ⟨⟩
    exact ⟨‹_›, rfl, rfl⟩
  · rintro ⟨family, rfl, rfl⟩
    exact .random family

theorem decode_eq_draw_iff {x y : Register} {height : Fin 16} :
    word.decode = some (.draw x y height) ↔
      word.family.val = 0xD ∧ word.x = x ∧ word.y = y ∧ word.digit = height := by
  rw [decode_eq_some_iff]
  constructor
  · rintro ⟨⟩
    exact ⟨‹_›, rfl, rfl, rfl⟩
  · rintro ⟨family, rfl, rfl, rfl⟩
    exact .draw family

/-- Whether a word is a call, `2nnn`. -/
def isCall (word : Word) : Bool :=
  word.family.val == 0x2

/-- Whether a word is a return, `0_EE`. -/
def isReturn (word : Word) : Bool :=
  word.family.val == 0x0 && word.byte == 0xEE

/-- Whether a word is a random load, `Cxkk`. -/
def isRandom (word : Word) : Bool :=
  word.family.val == 0xC

/-- Whether a word clears the picture, `0_E0`. -/
def isClear (word : Word) : Bool :=
  word.family.val == 0x0 && word.byte == 0xE0

/-- Whether a word draws a sprite, `Dxyn`. -/
def isDraw (word : Word) : Bool :=
  word.family.val == 0xD

theorem decode_of_isCall (calls : word.isCall = true) :
    word.decode = some (.call word.address) :=
  decode_eq_call_iff.mpr ⟨eq_of_beq calls, rfl⟩

theorem isCall_of_decode {target : Address} (decoded : word.decode = some (.call target)) :
    word.isCall = true :=
  beq_iff_eq.mpr (family_of_decode decoded)

theorem isReturn_iff : word.isReturn = true ↔ word.decode = some .ret := by
  rw [decode_eq_ret_iff, isReturn, Bool.and_eq_true, beq_iff_eq, beq_iff_eq]

theorem isReturn_of_isCall (calls : word.isCall = true) : word.isReturn = false := by
  apply Bool.eq_false_iff.mpr
  intro returns
  cases (decode_of_isCall calls).symm.trans (isReturn_iff.mp returns)

theorem isClear_iff : word.isClear = true ↔ word.decode = some .clear := by
  rw [decode_eq_some_iff, isClear, Bool.and_eq_true, beq_iff_eq, beq_iff_eq]
  constructor
  · rintro ⟨family, byte⟩
    exact .clear family byte
  · rintro ⟨⟩
    exact ⟨‹_›, ‹_›⟩

theorem decode_of_isDraw (draws : word.isDraw = true) :
    word.decode = some (.draw word.x word.y word.digit) :=
  decode_eq_draw_iff.mpr ⟨eq_of_beq draws, rfl, rfl, rfl⟩

theorem isDraw_of_decode {x y : Register} {height : Fin 16}
    (decoded : word.decode = some (.draw x y height)) : word.isDraw = true :=
  beq_iff_eq.mpr (family_of_decode decoded)

theorem isClear_of_isDraw (draws : word.isDraw = true) : word.isClear = false := by
  have family : word.family.val = 0xD := eq_of_beq draws
  simp [isClear, family]

theorem decode_of_isRandom (draws : word.isRandom = true) :
    word.decode = some (.random word.x word.byte) :=
  decode_eq_random_iff.mpr ⟨eq_of_beq draws, rfl, rfl⟩

theorem drawsRandom_eq (word : Word) : word.drawsRandom = word.isRandom := by
  cases draws : word.isRandom with
  | true =>
      rw [drawsRandom, decode_of_isRandom draws]
      rfl
  | false =>
      apply Bool.eq_false_iff.mpr
      intro drawn
      apply Bool.eq_false_iff.mp draws
      obtain ⟨instruction, decoded, random⟩ := (Option.any_eq_true _ _).mp drawn
      cases instruction <;> cases random
      exact beq_iff_eq.mpr (family_of_decode decoded)

end Word

end ChipEight
