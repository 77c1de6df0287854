import ChipEight.Frame

/-!
# Textures

A window shows the picture as a texture: the rows one after the other, and for
every pixel its red, green and blue intensity.  Lit pixels are white and dark
pixels are black.
-/

namespace ChipEight

namespace Texture

def channels : Nat := 3

/-- The intensity of a pixel in every channel.  Any value but zero counts as
lit. -/
def intensity (pixel : UInt8) : UInt8 :=
  if pixel = 0 then 0x00 else 0xFF

def pixelBytes (pixel : UInt8) : List UInt8 :=
  List.replicate channels (intensity pixel)

def rowBytes (row : Vector UInt8 Frame.width) : List UInt8 :=
  row.toList.flatMap pixelBytes

/-- The texture that shows a picture. -/
def ofFrame (frame : Frame) : List UInt8 :=
  frame.rows.toList.flatMap rowBytes

end Texture

end ChipEight
