import ChipEight.Proofs.Plotting
import ChipEight.Texture

/-!
# Where pixels lie in a texture

A texture lists the rows of the picture one after the other, the pixels of each
row, and three equal intensities for each pixel.  Every byte of it is thus told by
a row, a column and a channel, and which pixels are lit can be read off again.
-/

namespace ChipEight

namespace Texture

/-- In a list of pieces of one length, a place is told by a piece and a place in it. -/
theorem getElem?_flatMap {α β : Type} {pieces : α → List β} {width : Nat}
    (uniform : ∀ item, (pieces item).length = width) (items : List α) (number : Nat) {place : Nat}
    (inside : place < width) :
    (items.flatMap pieces)[width * number + place]? =
      items[number]?.bind fun item => (pieces item)[place]? := by
  induction items generalizing number with
  | nil => simp
  | cons item items ih =>
      rw [List.flatMap_cons]
      cases number with
      | zero =>
          have early : width * 0 + place < (pieces item).length := by
            rw [uniform]
            omega
          rw [List.getElem?_append_left early]
          simp
      | succ number =>
          have late : (pieces item).length ≤ width * (number + 1) + place := by
            rw [uniform, Nat.mul_succ]
            omega
          have rest : width * (number + 1) + place - (pieces item).length =
              width * number + place := by
            rw [uniform, Nat.mul_succ]
            omega
          rw [List.getElem?_append_right late, rest, ih, List.getElem?_cons_succ]

theorem length_pixelBytes (pixel : UInt8) : (pixelBytes pixel).length = channels :=
  List.length_replicate

theorem length_rowBytes (row : Vector UInt8 Frame.width) :
    (rowBytes row).length = channels * Frame.width := by
  simp [rowBytes, length_pixelBytes, List.length_flatMap, Nat.mul_comm]

theorem length_ofFrame (frame : Frame) :
    (ofFrame frame).length = channels * Frame.width * Frame.height := by
  simp [ofFrame, length_rowBytes, List.length_flatMap, Nat.mul_comm]

/-- The place of a channel of a pixel in a texture. -/
def place (point : Point) (channel : Fin channels) : Nat :=
  channels * Frame.width * point.row.val + (channels * point.column.val + channel.val)

theorem getElem?_ofFrame (frame : Frame) (point : Point) (channel : Fin channels) :
    (ofFrame frame)[place point channel]? = some (intensity (frame.pixel point)) := by
  have columnLt := point.column.isLt
  have channelLt := channel.isLt
  have insideRow : channels * point.column.val + channel.val < channels * Frame.width := by
    simp only [channels, Frame.width] at *
    omega
  have row : frame.rows.toList[point.row.val]? = some frame.rows[point.row] := by simp
  have column : frame.rows[point.row].toList[point.column.val]? = some (frame.pixel point) := by
    simp [Frame.pixel]
  rw [place, ofFrame, getElem?_flatMap length_rowBytes _ _ insideRow, row, Option.bind_some,
    rowBytes, getElem?_flatMap length_pixelBytes _ _ channelLt, column, Option.bind_some,
    pixelBytes, List.getElem?_replicate_of_lt channelLt]

theorem exists_place {position : Nat}
    (inside : position < channels * Frame.width * Frame.height) :
    ∃ point channel, place point channel = position := by
  simp only [channels, Frame.width, Frame.height] at inside
  let row : Fin Frame.height := ⟨position / 192, by simp only [Frame.height]; omega⟩
  let column : Fin Frame.width := ⟨position % 192 / 3, by simp only [Frame.width]; omega⟩
  let channel : Fin channels := ⟨position % 3, Nat.mod_lt _ (by decide)⟩
  refine ⟨⟨row, column⟩, channel, ?_⟩
  simp only [place, channels, Frame.width, row, column, channel]
  omega

theorem intensity_eq_iff {first second : UInt8} :
    intensity first = intensity second ↔ (first = 0 ↔ second = 0) := by
  unfold intensity
  by_cases firstDark : first = 0 <;> by_cases secondDark : second = 0 <;>
    simp [firstDark, secondDark]

theorem ofFrame_eq_iff {first second : Frame} :
    ofFrame first = ofFrame second ↔
      ∀ point, (first.pixel point = 0 ↔ second.pixel point = 0) := by
  constructor
  · intro same point
    have firstByte := getElem?_ofFrame first point ⟨0, by decide⟩
    rw [same, getElem?_ofFrame] at firstByte
    exact (intensity_eq_iff.mp (Option.some.inj firstByte)).symm
  · intro same
    apply List.ext_getElem?
    intro position
    by_cases inside : position < channels * Frame.width * Frame.height
    · obtain ⟨point, channel, rfl⟩ := exists_place inside
      rw [getElem?_ofFrame, getElem?_ofFrame, intensity_eq_iff.mpr (same point)]
    · have outside := Nat.le_of_not_lt inside
      have firstEnds : (ofFrame first).length ≤ position := length_ofFrame first ▸ outside
      have secondEnds : (ofFrame second).length ≤ position := length_ofFrame second ▸ outside
      rw [List.getElem?_eq_none firstEnds, List.getElem?_eq_none secondEnds]

/-- The picture that a texture shows, read from its first channel. -/
def toFrame (texture : List UInt8) : Frame where
  rows := Vector.ofFn fun row => Vector.ofFn fun column =>
    if texture[place ⟨row, column⟩ ⟨0, by decide⟩]? = some 0x00 then 0 else 1

theorem pixel_toFrame (texture : List UInt8) (point : Point) :
    (toFrame texture).pixel point =
      if texture[place point ⟨0, by decide⟩]? = some 0x00 then 0 else 1 := by
  simp [toFrame, Frame.pixel]

theorem pixel_toFrame_ofFrame (frame : Frame) (point : Point) :
    (toFrame (ofFrame frame)).pixel point = if frame.pixel point = 0 then 0 else 1 := by
  rw [pixel_toFrame, getElem?_ofFrame]
  by_cases dark : frame.pixel point = 0 <;> simp [intensity, dark]

/-- A picture is recovered from its texture if its pixels are bits. -/
theorem toFrame_ofFrame_iff {frame : Frame} : toFrame (ofFrame frame) = frame ↔ frame.Binary := by
  constructor
  · intro recovered point
    rw [← recovered, pixel_toFrame_ofFrame]
    split
    · exact Or.inl rfl
    · exact Or.inr rfl
  · intro binary
    ext point
    rw [pixel_toFrame_ofFrame]
    rcases binary point with dark | lit
    · rw [dark]
      rfl
    · rw [lit]
      rfl

/-- The bytes of a texture are full where the picture is lit and zero where it is dark, so
pictures have the same texture exactly if the same pixels of them are lit. -/
theorem ofFrame_shows_lit (frame : Frame) :
    (ofFrame frame).length = 6144 ∧
      (∀ (point : Point) (channel : Fin 3),
        (ofFrame frame)[192 * point.row.val + 3 * point.column.val + channel.val]? =
          some (if frame.pixel point = 0 then 0x00 else 0xFF)) ∧
      (∀ other : Frame, ofFrame frame = ofFrame other ↔
        ∀ point, (frame.pixel point ≠ 0 ↔ other.pixel point ≠ 0)) ∧
      (toFrame (ofFrame frame) = frame ↔ frame.Binary) := by
  refine ⟨length_ofFrame frame, ?_, ?_, toFrame_ofFrame_iff⟩
  · intro point channel
    rw [Nat.add_assoc]
    exact getElem?_ofFrame frame point channel
  · intro other
    simp only [ofFrame_eq_iff, ne_eq, not_iff_not]

end Texture

end ChipEight
