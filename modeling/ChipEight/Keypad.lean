/-!
# Keypad

The machine has sixteen keys, named by the hexadecimal digits.  Programs name a
key by a byte, and no byte above `0xF` is a key.
-/

namespace ChipEight

abbrev Keypad.keyCount : Nat := 16

abbrev Key := Fin Keypad.keyCount

/-- The key that a byte names, if it names one. -/
def Key.ofByte? (byte : UInt8) : Option Key :=
  if named : byte.toNat < Keypad.keyCount then some ⟨byte.toNat, named⟩ else none

def Key.toByte (key : Key) : UInt8 :=
  UInt8.ofNat key.val

/-- Which keys are held down. -/
structure Keypad where
  held : Vector Bool Keypad.keyCount
  deriving DecidableEq

namespace Keypad

def released : Keypad where
  held := Vector.replicate keyCount false

def isDown (keypad : Keypad) (key : Key) : Bool :=
  keypad.held[key]

/-- Whether the key that a byte names is held down.  A byte that names no key
counts as a key that is up. -/
def isByteDown (keypad : Keypad) (byte : UInt8) : Bool :=
  (Key.ofByte? byte).any keypad.isDown

def set (keypad : Keypad) (key : Key) (down : Bool) : Keypad where
  held := keypad.held.set key down

/-- The keys that are held down, in ascending order. -/
def downKeys (keypad : Keypad) : List Key :=
  (List.finRange keyCount).filter keypad.isDown

def lowestDown? (keypad : Keypad) : Option Key :=
  (List.finRange keyCount).find? keypad.isDown

@[ext]
theorem ext_isDown {first second : Keypad}
    (same : ∀ key, first.isDown key = second.isDown key) : first = second := by
  obtain ⟨first⟩ := first
  obtain ⟨second⟩ := second
  congr 1
  apply Vector.ext
  intro key inside
  exact same ⟨key, inside⟩

@[simp]
theorem isDown_released (key : Key) : released.isDown key = false := by
  simp [isDown, released]

@[simp]
theorem isDown_set_self (keypad : Keypad) (key : Key) (down : Bool) :
    (keypad.set key down).isDown key = down := by
  simp [isDown, set]

theorem isDown_set_of_ne (keypad : Keypad) {key other : Key} (down : Bool)
    (different : key ≠ other) : (keypad.set key down).isDown other = keypad.isDown other := by
  have otherIndex : key.val ≠ other.val := fun same => different (Fin.ext same)
  simp [isDown, set, Vector.getElem_set_ne, otherIndex]

theorem lowestDown?_eq_head? (keypad : Keypad) :
    keypad.lowestDown? = keypad.downKeys.head? := by
  simp [lowestDown?, downKeys, List.head?_filter]

theorem lowestDown?_of_up {keypad : Keypad} (up : ∀ key, keypad.isDown key = false) :
    keypad.lowestDown? = none := by
  rw [lowestDown?, List.find?_eq_none]
  intro key _
  simp [up key]

theorem exists_lowestDown? {keypad : Keypad} {pressed : Key} (down : keypad.isDown pressed = true) :
    ∃ key, keypad.lowestDown? = some key ∧ keypad.isDown key = true ∧
      ∀ lower < key, keypad.isDown lower = false := by
  cases found : keypad.lowestDown? with
  | none =>
      rw [lowestDown?, List.find?_eq_none] at found
      exact absurd down (found pressed (List.mem_finRange pressed))
  | some key =>
      obtain ⟨held, position, inside, keyEq, earlier⟩ := List.find?_eq_some_iff_getElem.mp found
      refine ⟨key, rfl, held, ?_⟩
      intro lower below
      have positionEq : position = key.val := by
        rw [← keyEq, List.getElem_finRange]
        rfl
      have before : lower.val < position := by
        rw [positionEq]
        exact below
      have up := earlier lower.val before
      rw [List.getElem_finRange] at up
      simpa using up

end Keypad

end ChipEight
