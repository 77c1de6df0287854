/-!
# Hexadecimal and column text

Every message of the machine shows addresses, words and registers in upper-case
hexadecimal with a least number of digits, and a trace line keeps the
instruction in a column of fixed width.  This file holds those two layouts.
Digits are produced for a given width, so that the text of a number which fits
the width always has exactly that many digits.
-/

namespace ChipEight

namespace Text

/-- The upper-case hexadecimal digit of a value below sixteen. -/
def hexDigit (value : Nat) : Char :=
  if value < 10 then Char.ofNat (48 + value) else Char.ofNat (55 + value)

/-- The lowest `width` hexadecimal digits of a number, most significant
first. -/
def hexDigits : Nat → Nat → List Char
  | 0, _ => []
  | width + 1, number => hexDigits width (number / 16) ++ [hexDigit (number % 16)]

/-- How many hexadecimal digits a number has without leading zeros.  Zero has
one digit. -/
def hexLength (number : Nat) : Nat :=
  number.log2 / 4 + 1

/-- A number in hexadecimal, filled up with leading zeros to at least `width`
digits. -/
def hex (width number : Nat) : String :=
  String.ofList (hexDigits (max width (hexLength number)) number)

def padEnd (width : Nat) (text : String) : String :=
  text ++ String.ofList (List.replicate (width - text.length) ' ')

@[simp]
theorem hexDigits_length (width number : Nat) :
    (hexDigits width number).length = width := by
  induction width generalizing number with
  | zero => rfl
  | succ width ih => simp [hexDigits, ih]

theorem hexLength_le_of_lt {width number : Nat} (positive : 0 < width)
    (bounded : number < Nat.pow 16 width) : hexLength number ≤ width := by
  by_cases isZero : number = 0
  · subst isZero
    exact positive
  · have powerEq : Nat.pow 16 width = 2 ^ (4 * width) :=
      (Nat.pow_mul 2 4 width).symm
    have logBound : number.log2 < 4 * width :=
      (Nat.log2_lt isZero).2 (powerEq ▸ bounded)
    unfold hexLength
    omega

theorem hex_eq_of_lt {width number : Nat} (positive : 0 < width)
    (bounded : number < Nat.pow 16 width) :
    hex width number = String.ofList (hexDigits width number) := by
  rw [hex, Nat.max_eq_left (hexLength_le_of_lt positive bounded)]

end Text

end ChipEight
