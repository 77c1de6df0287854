/-!
# Frame buffer and sprites

The picture has 32 rows of 64 pixels.  A pixel is a byte that is one when lit
and zero when dark.  A sprite is a column of bytes, one per row and one pixel
per bit, and drawing it toggles the pixels of its set bits.  Every pixel wraps
around the edges on its own.
-/

namespace ChipEight

abbrev Frame.height : Nat := 32

abbrev Frame.width : Nat := 64

/-- The pixels of the picture, by row and then by column. -/
structure Frame where
  rows : Vector (Vector UInt8 Frame.width) Frame.height
  deriving DecidableEq

structure Point where
  row : Fin Frame.height
  column : Fin Frame.width
  deriving DecidableEq, Repr

namespace Frame

def blank : Frame where
  rows := Vector.replicate height (Vector.replicate width 0)

def pixel (frame : Frame) (point : Point) : UInt8 :=
  frame.rows[point.row][point.column]

def setPixel (frame : Frame) (point : Point) (value : UInt8) : Frame where
  rows := frame.rows.set point.row (frame.rows[point.row].set point.column value)

def toggle (frame : Frame) (point : Point) : Frame :=
  frame.setPixel point (frame.pixel point ^^^ 1)

def toggleAll (frame : Frame) (points : List Point) : Frame :=
  points.foldl toggle frame

def anyLit (frame : Frame) (points : List Point) : Bool :=
  points.any fun point => frame.pixel point == 1

@[ext]
theorem ext_pixel {first second : Frame}
    (same : ∀ point, first.pixel point = second.pixel point) : first = second := by
  obtain ⟨first⟩ := first
  obtain ⟨second⟩ := second
  congr 1
  apply Vector.ext
  intro row rowInside
  apply Vector.ext
  intro column columnInside
  exact same ⟨⟨row, rowInside⟩, ⟨column, columnInside⟩⟩

@[simp]
theorem pixel_blank (point : Point) : blank.pixel point = 0 := by
  simp [pixel, blank]

@[simp]
theorem pixel_setPixel_self (frame : Frame) (point : Point) (value : UInt8) :
    (frame.setPixel point value).pixel point = value := by
  simp [pixel, setPixel]

theorem pixel_setPixel_of_ne (frame : Frame) {point other : Point} (value : UInt8)
    (different : point ≠ other) :
    (frame.setPixel point value).pixel other = frame.pixel other := by
  by_cases sameRow : point.row = other.row
  · have otherColumn : point.column.val ≠ other.column.val := fun sameColumn =>
      different (by
        cases point
        cases other
        simp_all [Fin.ext_iff])
    simp [pixel, setPixel, sameRow, Vector.getElem_set_ne, otherColumn]
  · have otherRow : point.row.val ≠ other.row.val := fun same =>
      sameRow (Fin.ext same)
    simp [pixel, setPixel, Vector.getElem_set_ne, otherRow]

end Frame

namespace Sprite

/-- The pixels of one sprite row, drawn from column `x` to the right.  The most
significant bit is leftmost. -/
def rowPoints (x : Nat) (row : Fin Frame.height) (byte : UInt8) : List Point :=
  ((List.range 8).filter fun bit => byte.toNat.testBit (7 - bit)).map fun bit =>
    ⟨row, Fin.ofNat Frame.width (x + bit)⟩

/-- The pixels of a sprite whose top left corner is drawn at column `x` and row
`y`, wrapped around the edges of the picture. -/
def points (x y : Nat) : List UInt8 → List Point
  | [] => []
  | byte :: rest => rowPoints x (Fin.ofNat Frame.height y) byte ++ points x (y + 1) rest

end Sprite

end ChipEight
