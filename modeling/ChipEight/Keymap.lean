import ChipEight.Keypad

/-!
# Keymap

The keypad lies on the four left columns of the keyboard:

    1 2 3 C        1 2 3 4
    4 5 6 D   on   Q W E R
    7 8 9 E        A S D F
    A 0 B F        Z X C V

Three more keys control the session.
-/

namespace ChipEight

/-- A key of the keyboard, named by its code.  Printable keys have the code of
their character, letters in lower case. -/
structure HostKey where
  code : Int
  deriving DecidableEq, Repr

/-- The key with the given code.  Zero is the code of no key. -/
def HostKey.ofCode? (code : Int) : Option HostKey :=
  if code = 0 then none else some ⟨code⟩

def HostKey.ofChar (character : Char) : HostKey where
  code := character.toNat

/-- What a key of the keyboard means to a session. -/
inductive Input where
  | key (key : Key)
  | quit
  | rewind
  | fastForward
  deriving DecidableEq, Repr

namespace Keymap

/-- The keys of the keyboard that lie where the keypad has its keys. -/
def keypadKeys : List (Char × Key) := [
  ('1', 0x1), ('2', 0x2), ('3', 0x3), ('4', 0xC),
  ('q', 0x4), ('w', 0x5), ('e', 0x6), ('r', 0xD),
  ('a', 0x7), ('s', 0x8), ('d', 0x9), ('f', 0xE),
  ('z', 0xA), ('x', 0x0), ('c', 0xB), ('v', 0xF)]

/-- The keys that control the session: escape, backspace and space. -/
def controlKeys : List (Char × Input) := [
  ('\x1b', .quit),
  ('\x08', .rewind),
  (' ', .fastForward)]

/-- Every key of the keyboard that has a meaning. -/
def table : List (HostKey × Input) :=
  keypadKeys.map (fun (character, key) => (.ofChar character, .key key)) ++
    controlKeys.map fun (character, input) => (.ofChar character, input)

def input? (key : HostKey) : Option Input :=
  table.lookup key

/-- Every key of the keypad lies on some key of the keyboard. -/
theorem exists_input?_eq_key (key : Key) : ∃ host, input? host = some (.key key) := by
  have found : ∀ key : Key, table.any fun entry => input? entry.1 = some (.key key) := by decide
  obtain ⟨entry, _, mapped⟩ := List.any_eq_true.1 (found key)
  exact ⟨entry.1, of_decide_eq_true mapped⟩

end Keymap

end ChipEight
