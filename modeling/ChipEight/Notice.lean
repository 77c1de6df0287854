import ChipEight.Instruction.Mnemonic

/-!
# Notices

What the machine and its sessions report while they run.  A notice is the event
itself with the numbers that belong to it, and its wording is fixed here.
-/

namespace ChipEight

/-- How much a notice matters. -/
inductive Level where
  | trace
  | debug
  | warn
  | error
  deriving DecidableEq, Repr

def Level.name : Level → String
  | trace => "TRACE"
  | debug => "DEBUG"
  | warn => "WARN"
  | error => "ERROR"

/-- An event that is reported. -/
inductive Notice where
  | executing (pc : UInt16) (word : Word) (registers : Vector UInt8 16) (index : UInt16)
      (depth : Nat)
  /-- A word stands for no instruction. -/
  | unknownWord (word : Word) (pc : UInt16)
  | ignoredKey (byte : UInt8)
  | programLoaded (size : Nat)
  | windowOpened (width height : UInt32)
  /-- No audio driver of the given name was found. -/
  | soundUnavailable (driver : String)
  | halted (fault : Fault)
  deriving DecidableEq, Repr

namespace Notice

def level : Notice → Level
  | executing .. => .trace
  | unknownWord .. => .warn
  | ignoredKey _ => .warn
  | programLoaded _ => .debug
  | windowOpened .. => .debug
  | soundUnavailable _ => .warn
  | halted _ => .error

def registersText (registers : Vector UInt8 16) : String :=
  "[" ++ ", ".intercalate (registers.toList.map Operand.byte) ++ "]"

def message : Notice → String
  | executing pc word registers index depth =>
    s!"{Text.hex 3 pc.toNat}  {Text.hex 4 word.toNat}  {Text.padEnd 16 word.mnemonic} " ++
      s!"v{registersText registers} i{Text.hex 3 index.toNat} sp{depth}"
  | unknownWord word pc =>
    s!"skipping unknown opcode {Text.hex 4 word.toNat} at {Text.hex 3 pc.toNat}"
  | ignoredKey byte =>
    s!"ignoring key 0x{Text.hex 1 byte.toNat}, the keypad only has keys 0x0..=0xF"
  | programLoaded size => s!"loaded {size} byte ROM"
  | windowOpened width height => s!"opened a {width}x{height} window"
  | soundUnavailable driver =>
    s!"no audio available (Audio target '{driver}' not available), continuing without sound"
  | halted fault => s!"{fault.message}; halted, hold Backspace to rewind"

end Notice

end ChipEight
