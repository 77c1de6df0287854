import ChipEight.Instruction.Mnemonic

/-!
# Reading assembler notation

Assembler notation is read back in the order in which it is written: a text is
cut into words at its blanks, a word is read as a register, a number or a name,
and an operation with the kinds of its operands selects the instruction.  How
many digits a number has tells a byte from an address.  Reading the text of an
instruction returns the instruction, so that no two instructions share a text.
-/

namespace ChipEight

namespace Text

/-- The value of an upper-case hexadecimal digit. -/
def digitValue? (character : Char) : Option Nat :=
  if '0' ≤ character ∧ character ≤ '9' then
    some (character.toNat - 48)
  else if 'A' ≤ character ∧ character ≤ 'F' then
    some (character.toNat - 55)
  else
    none

/-- The number that hexadecimal digits stand for, most significant first. -/
def hexValue? (characters : List Char) : Option Nat :=
  characters.foldlM (fun value character => (digitValue? character).map (16 * value + ·)) 0

theorem digitValue?_hexDigit {digit : Nat} (bounded : digit < 16) :
    digitValue? (hexDigit digit) = some digit := by
  revert digit
  decide

theorem hexValue?_append_hexDigit (characters : List Char) {digit : Nat}
    (bounded : digit < 16) :
    hexValue? (characters ++ [hexDigit digit]) =
      (hexValue? characters).map (16 * · + digit) := by
  unfold hexValue?
  rw [List.foldlM_append]
  cases List.foldlM (fun value character => (digitValue? character).map (16 * value + ·)) 0
    characters with
  | none => rfl
  | some value => simp [digitValue?_hexDigit bounded]

theorem hexValue?_hexDigits {width number : Nat} (bounded : number < Nat.pow 16 width) :
    hexValue? (hexDigits width number) = some number := by
  induction width generalizing number with
  | zero =>
      have isZero : number = 0 := Nat.lt_one_iff.mp bounded
      subst isZero
      rfl
  | succ width ih =>
      have dividedBound : number / 16 < Nat.pow 16 width := by
        apply Nat.div_lt_of_lt_mul
        rw [Nat.mul_comm]
        exact bounded
      have digitBound : number % 16 < 16 := Nat.mod_lt _ (by decide)
      rw [hexDigits, hexValue?_append_hexDigit _ digitBound, ih dividedBound, Option.map_some,
        Nat.div_add_mod]

/-- Whether a text can stand between a blank and a comma. -/
def Unbroken (text : String) : Prop :=
  ' ' ∉ text.toList ∧ ',' ∉ text.toList

instance (text : String) : Decidable (Unbroken text) :=
  inferInstanceAs (Decidable (_ ∧ _))

theorem hexDigit_ne_separator {digit : Nat} (bounded : digit < 16) :
    hexDigit digit ≠ ' ' ∧ hexDigit digit ≠ ',' := by
  revert digit
  decide

theorem not_mem_hexDigits {character : Char}
    (undigit : ∀ digit < 16, hexDigit digit ≠ character) (width number : Nat) :
    character ∉ hexDigits width number := by
  induction width generalizing number with
  | zero => exact List.not_mem_nil
  | succ width ih =>
      have last : character ≠ hexDigit (number % 16) :=
        (undigit _ (Nat.mod_lt _ (by decide))).symm
      simp only [hexDigits, List.mem_append, List.mem_singleton, not_or]
      exact ⟨ih _, last⟩

theorem unbroken_hex (width number : Nat) : Unbroken (hex width number) := by
  unfold Unbroken hex
  rw [String.toList_ofList]
  constructor
  · apply not_mem_hexDigits
    intro digit bounded
    exact (hexDigit_ne_separator bounded).1
  · apply not_mem_hexDigits
    intro digit bounded
    exact (hexDigit_ne_separator bounded).2

end Text

namespace Operand

@[simp]
theorem unbroken_register (x : Register) : Text.Unbroken (register x) := by
  revert x
  decide

@[simp]
theorem unbroken_byte (kk : UInt8) : Text.Unbroken (byte kk) :=
  Text.unbroken_hex ..

@[simp]
theorem unbroken_address (target : Address) : Text.Unbroken (address target) :=
  Text.unbroken_hex ..

@[simp]
theorem unbroken_height (rows : Fin 16) : Text.Unbroken (height rows) :=
  Text.unbroken_hex ..

end Operand

namespace Text

/-- The words of a text, without the commas behind them. -/
def words (text : String) : List String :=
  ((text.toList.filter (· != ',')).splitOn ' ').map String.ofList

theorem filter_of_unbroken {text : String} (unbroken : Unbroken text) :
    text.toList.filter (· != ',') = text.toList := by
  apply List.filter_eq_self.mpr
  intro character member
  apply bne_iff_ne.mpr
  rintro rfl
  exact unbroken.2 member

end Text

namespace Assembly

/-- Without its commas, a list of operands is separated by blanks. -/
theorem filter_operands {operands : List String}
    (unbroken : ∀ operand ∈ operands, Text.Unbroken operand) :
    (", ".intercalate operands).toList.filter (· != ',') =
      [' '].intercalate (operands.map String.toList) := by
  induction operands with
  | nil => simp
  | cons first rest ih =>
      have firstKept := Text.filter_of_unbroken (unbroken first List.mem_cons_self)
      have restKept := ih fun operand member => unbroken operand (List.mem_cons_of_mem _ member)
      cases rest with
      | nil => simpa using firstKept
      | cons second rest =>
          have separator : (", ".toList.filter (· != ',')) = [' '] := by decide
          rw [String.intercalate_cons_cons, String.toList_append, String.toList_append,
            List.filter_append, List.filter_append, firstKept, separator, restKept]
          simp

/-- Cutting a text into words returns what it was put together from. -/
theorem words_text {operation : String} {operands : List String}
    (operationUnbroken : Text.Unbroken operation)
    (operandsUnbroken : ∀ operand ∈ operands, Text.Unbroken operand) :
    Text.words (text ⟨operation, operands⟩) = operation :: operands := by
  have operationKept := Text.filter_of_unbroken operationUnbroken
  have joined : (text ⟨operation, operands⟩).toList.filter (· != ',') =
      [' '].intercalate ((operation :: operands).map String.toList) := by
    cases operands with
    | nil => simpa [text] using operationKept
    | cons first rest =>
        have blank : " ".toList.filter (· != ',') = [' '] := by decide
        simp only [text, String.toList_append, List.filter_append, operationKept, blank,
          filter_operands operandsUnbroken]
        simp
  have unbroken : ∀ characters ∈ (operation :: operands).map String.toList, ' ' ∉ characters := by
    intro characters member
    obtain ⟨word, wordMember, rfl⟩ := List.mem_map.mp member
    rcases List.mem_cons.mp wordMember with rfl | operandMember
    · exact operationUnbroken.1
    · exact (operandsUnbroken word operandMember).1
  rw [Text.words, joined, List.splitOn_intercalate ' ' unbroken (by simp), List.map_map]
  simp

end Assembly

/-- A word of a text as it is read. -/
inductive Token where
  | register (x : Register)
  /-- A number, and how many digits it is written with. -/
  | number (width value : Nat)
  | name (text : String)
  deriving DecidableEq, Repr

namespace Token

/-- A number as one of those below a limit. -/
def below? (limit value : Nat) : Option (Fin limit) :=
  if inside : value < limit then some ⟨value, inside⟩ else none

@[simp]
theorem below?_val {limit : Nat} (value : Fin limit) : below? limit value.val = some value :=
  dif_pos value.isLt

/-- A register is written as `V` and its number. -/
def register? : List Char → Option Register
  | ['V', digit] => (Text.digitValue? digit).bind (below? 16)
  | _ => none

def read (text : String) : Token :=
  match Text.hexValue? text.toList, register? text.toList with
  | some value, _ => number text.toList.length value
  | none, some x => register x
  | none, none => name text

theorem read_hex {width value : Nat} (positive : 0 < width) (bounded : value < Nat.pow 16 width) :
    read (Text.hex width value) = number width value := by
  simp only [Text.hex_eq_of_lt positive bounded, read, String.toList_ofList,
    Text.hexValue?_hexDigits bounded, Text.hexDigits_length]

@[simp]
theorem read_register (x : Register) : read (Operand.register x) = register x := by
  revert x
  decide

@[simp]
theorem read_byte (byte : UInt8) : read (Operand.byte byte) = number 2 byte.toNat :=
  read_hex (by decide) byte.toNat_lt

@[simp]
theorem read_address (address : Address) :
    read (Operand.address address) = number 3 address.val :=
  read_hex (by decide) address.isLt

@[simp]
theorem read_height (height : Fin 16) : read (Operand.height height) = number 1 height.val :=
  read_hex (by decide) height.isLt

/-- The places that have a name of several letters, or one that is no digit. -/
theorem read_place : ∀ place ∈ ["I", "DT", "ST", "K", "[I]"], read place = name place := by
  decide

end Token

namespace Instruction

def ofOperation? (operation : String) : Option Instruction :=
  match operation with
  | "CLS" => some .clear
  | "RET" => some .ret
  | _ => none

def onAddress? (operation : String) (target : Address) : Option Instruction :=
  match operation with
  | "JP" => some (.jump target)
  | "CALL" => some (.call target)
  | _ => none

def onRegister? (operation : String) (x : Register) : Option Instruction :=
  match operation with
  | "SKP" => some (.skip (.keyDown x))
  | "SKNP" => some (.skip (.keyUp x))
  | "SHR" => some (.shift .right x)
  | "SHL" => some (.shift .left x)
  | _ => none

def onByte? (operation : String) (x : Register) (byte : UInt8) : Option Instruction :=
  match operation with
  | "SE" => some (.skip (.equalsByte x byte))
  | "SNE" => some (.skip (.differsFromByte x byte))
  | "LD" => some (.load x byte)
  | "ADD" => some (.addByte x byte)
  | "RND" => some (.random x byte)
  | _ => none

def onRegisters? (operation : String) (x y : Register) : Option Instruction :=
  match operation with
  | "SE" => some (.skip (.equalsRegister x y))
  | "SNE" => some (.skip (.differsFromRegister x y))
  | "LD" => some (.combine .copy x y)
  | "OR" => some (.combine .or x y)
  | "AND" => some (.combine .and x y)
  | "XOR" => some (.combine .xor x y)
  | "ADD" => some (.arithmetic .add x y)
  | "SUB" => some (.arithmetic .subtract x y)
  | "SUBN" => some (.arithmetic .subtractFrom x y)
  | _ => none

/-- Loads of a register from a place that has a name. -/
def fromPlace? (operation : String) (x : Register) (place : String) : Option Instruction :=
  match operation, place with
  | "LD", "DT" => some (.loadDelay x)
  | "LD", "K" => some (.awaitKey x)
  | "LD", "[I]" => some (.loadRegisters x)
  | _, _ => none

/-- Operations that take a register to a place that has a name. -/
def toPlace? (operation place : String) (x : Register) : Option Instruction :=
  match operation, place with
  | "LD", "DT" => some (.setDelay x)
  | "LD", "ST" => some (.setSound x)
  | "LD", "[I]" => some (.storeRegisters x)
  | "ADD", "I" => some (.addIndex x)
  | _, _ => none

/-- The instruction that an operation with its operands stands for.  The places
`F` and `B` are read as digits. -/
def ofTokens? (operation : String) : List Token → Option Instruction
  | [] => ofOperation? operation
  | [.number 3 target] => (Token.below? Memory.size target).bind (onAddress? operation)
  | [.register x] => onRegister? operation x
  | [.register x, .number 2 byte] => onByte? operation x (.ofNat byte)
  | [.register x, .register y] => onRegisters? operation x y
  | [.register x, .number 3 base] =>
    if operation = "JP" ∧ x = .offset then
      (Token.below? Memory.size base).map .jumpOffset
    else
      none
  | [.register x, .register y, .number 1 height] =>
    if operation = "DRW" then (Token.below? 16 height).map (.draw x y) else none
  | [.name "I", .number 3 address] =>
    if operation = "LD" then (Token.below? Memory.size address).map .loadIndex else none
  | [.number 1 0xF, .register x] =>
    if operation = "LD" then some (.loadGlyph x) else none
  | [.number 1 0xB, .register x] =>
    if operation = "LD" then some (.storeDecimal x) else none
  | [.register x, .name place] => fromPlace? operation x place
  | [.name place, .register x] => toPlace? operation place x
  | _ => none

/-- The instruction that a text stands for in assembler notation. -/
def ofText? (text : String) : Option Instruction :=
  match Text.words text with
  | [] => none
  | operation :: operands => ofTokens? operation (operands.map Token.read)

theorem ofTokens?_assembly (instruction : Instruction) :
    ofTokens? instruction.assembly.operation (instruction.assembly.operands.map Token.read) =
      some instruction := by
  cases instruction with
  | skip condition =>
      cases condition <;>
        simp [assembly, Condition.assembly, ofTokens?, onByte?, onRegisters?, onRegister?]
  | combine operation x y =>
      cases operation <;> simp [assembly, Combination.operationName, ofTokens?, onRegisters?]
  | arithmetic operation x y =>
      cases operation <;> simp [assembly, Arithmetic.operationName, ofTokens?, onRegisters?]
  | shift direction x =>
      cases direction <;> simp [assembly, Shift.operationName, ofTokens?, onRegister?]
  | loadGlyph x =>
      have place : Token.read "F" = .number 1 0xF := by decide
      simp [assembly, ofTokens?, place]
  | storeDecimal x =>
      have place : Token.read "B" = .number 1 0xB := by decide
      simp [assembly, ofTokens?, place]
  | _ =>
      simp [assembly, ofTokens?, ofOperation?, onAddress?, onByte?, fromPlace?, toPlace?,
        Token.read_place]

theorem unbroken_assembly (instruction : Instruction) :
    Text.Unbroken instruction.assembly.operation ∧
      ∀ operand ∈ instruction.assembly.operands, Text.Unbroken operand := by
  cases instruction with
  | skip condition =>
      cases condition <;> simp +decide [assembly, Condition.assembly]
  | combine operation x y =>
      cases operation <;> simp +decide [assembly, Combination.operationName]
  | arithmetic operation x y =>
      cases operation <;> simp +decide [assembly, Arithmetic.operationName]
  | shift direction x =>
      cases direction <;> simp +decide [assembly, Shift.operationName]
  | _ => simp +decide [assembly]

/-- Reading the text of an instruction returns the instruction. -/
theorem ofText?_text (instruction : Instruction) :
    ofText? instruction.assembly.text = some instruction := by
  obtain ⟨operation, operands⟩ := instruction.unbroken_assembly
  rw [ofText?, Assembly.words_text operation operands]
  exact instruction.ofTokens?_assembly

end Instruction

end ChipEight
