import ChipEight.Frame

/-!
# Windows

A session shows the picture in a window whose size is a multiple of the
picture's.  Sizes are words of 32 bits, and a scale that is too large for them
wraps around.  A build that checks its arithmetic stops there instead.
-/

namespace ChipEight

/-- What a person chooses for a session. -/
structure Session.Options where
  title : String
  cyclesPerTurn : Nat
  /-- How many screen pixels a pixel of the picture is wide and high. -/
  scale : UInt32
  muted : Bool := false
  deriving DecidableEq, Repr

def Session.Options.defaultCyclesPerTurn : Nat := 10

/-- A window as it is asked from the host. -/
structure Window where
  title : String
  width : UInt32
  height : UInt32
  deriving DecidableEq, Repr

/-- Why a picture or the window for it could not be shown. -/
inductive WindowError where
  | noVideo (driver : String)
  /-- The title holds a NUL character, first at the given byte. -/
  | nulInTitle (position : Nat)
  | tooWide (width : UInt32)
  | tooHigh (height : UInt32)
  | refused (cause : String)
  | unpresented (cause : String)
  deriving DecidableEq, Repr

namespace WindowError

def message : WindowError → String
  | noVideo driver => s!"{driver} not available"
  | nulInTitle position =>
    s!"Invalid window title: nul byte found in provided data at position: {position}"
  | tooWide width => s!"Window width ({width}) is too high."
  | tooHigh height => s!"Window height ({height}) is too high."
  | refused cause => s!"SDL error: {cause}"
  | unpresented cause => cause

end WindowError

namespace Window

/-- The byte position of the first NUL character. -/
def nulPosition? : List Char → Option Nat
  | [] => none
  | character :: rest =>
    if character = '\x00' then
      some 0
    else
      (nulPosition? rest).map (· + character.utf8Size)

/-- The window that the options describe. -/
def ofOptions (options : Session.Options) : Window where
  title := options.title
  width := .ofNat Frame.width * options.scale
  height := .ofNat Frame.height * options.scale

theorem toNat_side_mul_eq_iff {side : Nat} (small : side < UInt32.size) (scale : UInt32) :
    (UInt32.ofNat side * scale).toNat = side * scale.toNat ↔
      side * scale.toNat < UInt32.size := by
  rw [UInt32.toNat_mul, UInt32.toNat_ofNat_of_lt' small]
  exact Nat.mod_eq_iff_lt (by decide)

/-- The width wraps around exactly for the scales that are too large. -/
theorem toNat_width_ofOptions_eq_iff (options : Session.Options) :
    (ofOptions options).width.toNat = Frame.width * options.scale.toNat ↔
      options.scale.toNat < 0x4000000 := by
  refine (toNat_side_mul_eq_iff (by decide) options.scale).trans ?_
  simp only [Frame.width, UInt32.size]
  omega

/-- The height has room for twice the scale. -/
theorem toNat_height_ofOptions_eq_iff (options : Session.Options) :
    (ofOptions options).height.toNat = Frame.height * options.scale.toNat ↔
      options.scale.toNat < 0x8000000 := by
  refine (toNat_side_mul_eq_iff (by decide) options.scale).trans ?_
  simp only [Frame.height, UInt32.size]
  omega

end Window

end ChipEight
