import ChipEight.Config
import ChipEight.History
import ChipEight.Notice
import ChipEight.RandomSource

/-!
# The machine

A machine is a state together with what outlives it: the history for rewinding,
the loaded program, the settings and the random source.  This file holds the
operations that execute nothing.
-/

namespace ChipEight

/-- A machine with its program and its past. -/
structure Machine where
  state : State
  history : History
  program : Array UInt8
  config : Config
  random : RandomSource

/-- What an operation returns, the machine it leaves and what it reports, in
order. -/
structure Outcome (α : Type) where
  value : α
  machine : Machine
  log : List Notice

namespace Machine

def new (config : Config) (random : RandomSource) : Machine where
  state := .initial
  history := .empty
  program := #[]
  config := config
  random := random

/-- Return to the state in which the loaded program starts, without a past. -/
def reset (machine : Machine) : Machine :=
  { machine with state := .boot machine.program, history := .empty }

def tick (machine : Machine) : Machine :=
  { machine with state := machine.state.tick }

def holdKey (machine : Machine) (key : Key) (down : Bool) : Machine :=
  { machine with state := { machine.state with keypad := machine.state.keypad.set key down } }

/-- Press or release the key that a byte names.  A byte that names no key is
ignored and reported. -/
def setKey (machine : Machine) (byte : UInt8) (down : Bool) : Outcome Unit :=
  match Key.ofByte? byte with
  | some key => ⟨(), machine.holdKey key down, []⟩
  | none => ⟨(), machine, [.ignoredKey byte]⟩

/-- Mark the picture as presented. -/
def clearRedraw (machine : Machine) : Machine :=
  { machine with state := { machine.state with redraw := false } }

/-- The picture if it should be presented again, which marks it as
presented. -/
def takeFrame (machine : Machine) : Option Frame × Machine :=
  if machine.state.redraw then
    (some machine.state.frame, machine.clearRedraw)
  else
    (none, machine)

/-- Return to the state before the last instruction that is still in the
history.  The picture is marked to be presented again.  Nothing changes if the
history is empty. -/
def rewind? (machine : Machine) : Option Machine :=
  machine.history.undo?.map fun (state, history) =>
    { machine with state := { state with redraw := true }, history }

/-- Rewind up to the given number of instructions.  Returns how many were
rewound. -/
def rewindCycles : Nat → Machine → Nat × Machine
  | 0, machine => (0, machine)
  | cycles + 1, machine =>
    match machine.rewind? with
    | none => (0, machine)
    | some earlier =>
      let (rewound, earliest) := rewindCycles cycles earlier
      (rewound + 1, earliest)

end Machine

end ChipEight
