import ChipEight.Instruction.Execute
import Mathlib.Data.List.Nodup

/-!
# Plotting sprites

A sprite visits no pixel twice, although it wraps around both edges: it is at
most 8 pixels wide and 15 pixels high, and the picture has 64 columns and 32
rows.  Looking for a collision while the pixels are toggled one by one
therefore finds the same as looking at the whole sprite before the first
pixel changes.
-/

namespace ChipEight

namespace Frame

/-- A picture whose pixels are all zero or one. -/
def Binary (frame : Frame) : Prop :=
  ∀ point, frame.pixel point = 0 ∨ frame.pixel point = 1

theorem binary_blank : blank.Binary :=
  fun point => Or.inl (pixel_blank point)

@[simp]
theorem pixel_toggle_self (frame : Frame) (point : Point) :
    (frame.toggle point).pixel point = frame.pixel point ^^^ 1 :=
  pixel_setPixel_self frame point _

theorem pixel_toggle_of_ne (frame : Frame) {point other : Point} (different : point ≠ other) :
    (frame.toggle point).pixel other = frame.pixel other :=
  pixel_setPixel_of_ne frame _ different

theorem Binary.toggle {frame : Frame} (binary : frame.Binary) (point : Point) :
    (frame.toggle point).Binary := by
  intro other
  by_cases same : point = other
  · subst other
    rw [pixel_toggle_self]
    rcases binary point with dark | lit
    · right
      rw [dark]
      rfl
    · left
      rw [lit]
      rfl
  · rw [pixel_toggle_of_ne frame same]
    exact binary other

theorem Binary.toggleAll {frame : Frame} (binary : frame.Binary) (points : List Point) :
    (frame.toggleAll points).Binary := by
  induction points generalizing frame with
  | nil => exact binary
  | cons point points ih => exact ih (binary.toggle point)

/-- Toggling a pixel outside a list of points does not change whether one of
them is lit. -/
theorem anyLit_toggle_of_notMem (frame : Frame) {point : Point} {points : List Point}
    (outside : point ∉ points) : (frame.toggle point).anyLit points = frame.anyLit points := by
  unfold anyLit
  rw [Bool.eq_iff_iff, List.any_eq_true, List.any_eq_true]
  refine exists_congr fun other => and_congr_right fun member => ?_
  have different : point ≠ other := by
    rintro rfl
    exact outside member
  rw [pixel_toggle_of_ne frame different]

end Frame

namespace Sprite

theorem mem_rowPoints {x : Nat} {row : Fin Frame.height} {byte : UInt8} {point : Point} :
    point ∈ rowPoints x row byte ↔
      ∃ bit, bit < 8 ∧ byte.toNat.testBit (7 - bit) = true ∧
        ⟨row, Fin.ofNat Frame.width (x + bit)⟩ = point := by
  simp only [rowPoints, List.mem_map, List.mem_filter, List.mem_range, and_assoc]

theorem nodup_rowPoints (x : Nat) (row : Fin Frame.height) (byte : UInt8) :
    (rowPoints x row byte).Nodup := by
  refine List.Nodup.map_on ?_ (List.nodup_range.filter _)
  intro bit member other otherMember same
  have bitLt : bit < 8 := List.mem_range.mp (List.mem_of_mem_filter member)
  have otherLt : other < 8 := List.mem_range.mp (List.mem_of_mem_filter otherMember)
  have columnEq : (x + bit) % Frame.width = (x + other) % Frame.width :=
    congrArg (fun point : Point => point.column.val) same
  simp only [Frame.width] at columnEq
  omega

theorem row_of_mem_points {x y : Nat} {bytes : List UInt8} {point : Point}
    (member : point ∈ points x y bytes) :
    ∃ offset, offset < bytes.length ∧ point.row = Fin.ofNat Frame.height (y + offset) := by
  induction bytes generalizing y with
  | nil => simp [points] at member
  | cons byte rest ih =>
      rcases List.mem_append.mp member with first | later
      · obtain ⟨bit, -, -, rfl⟩ := mem_rowPoints.mp first
        exact ⟨0, by simp, rfl⟩
      · obtain ⟨offset, offsetLt, rowEq⟩ := ih later
        refine ⟨offset + 1, by simpa using offsetLt, ?_⟩
        rw [rowEq, Nat.add_assoc, Nat.add_comm 1 offset]

theorem nodup_points (x y : Nat) {bytes : List UInt8} (fits : bytes.length ≤ Frame.height) :
    (points x y bytes).Nodup := by
  induction bytes generalizing y with
  | nil => exact List.nodup_nil
  | cons byte rest ih =>
      rw [List.length_cons] at fits
      refine (nodup_rowPoints x _ byte).append (ih (y + 1) (by omega)) ?_
      intro point first later
      obtain ⟨bit, -, -, rfl⟩ := mem_rowPoints.mp first
      obtain ⟨offset, offsetLt, rowEq⟩ := row_of_mem_points later
      have sameRow : y % Frame.height = (y + 1 + offset) % Frame.height :=
        congrArg Fin.val rowEq
      simp only [Frame.height] at fits sameRow
      omega

end Sprite

namespace State

def plot (state : State) (point : Point) : State :=
  let marked := if state.frame.pixel point = 1 then state.setRegister .flag 1 else state
  { marked with frame := state.frame.toggle point }

theorem memory_foldl_plot (state : State) (points : List Point) :
    (points.foldl plot state).memory = state.memory := by
  induction points generalizing state with
  | nil => rfl
  | cons point points ih =>
      rw [List.foldl_cons, ih, plot]
      split <;> rfl

/-- Plotting points one by one sets the flag register if one of them was lit
at the start, provided that no point comes twice. -/
theorem foldl_plot (state : State) {points : List Point} (distinct : points.Nodup) :
    points.foldl plot state =
      { (if state.frame.anyLit points then state.setRegister .flag 1 else state) with
        frame := state.frame.toggleAll points } := by
  induction points generalizing state with
  | nil => rfl
  | cons point points ih =>
      obtain ⟨notMem, restDistinct⟩ := List.nodup_cons.mp distinct
      have plottedFrame : (state.plot point).frame = state.frame.toggle point := rfl
      rw [List.foldl_cons, ih _ restDistinct, plottedFrame,
        Frame.anyLit_toggle_of_notMem _ notMem]
      have litCons : state.frame.anyLit (point :: points) =
          (state.frame.pixel point == 1 || state.frame.anyLit points) := rfl
      rw [litCons]
      by_cases lit : state.frame.pixel point = 1 <;>
        cases state.frame.anyLit points <;>
        simp [plot, lit, setRegister, Frame.toggleAll]

/-- Drawing a sprite is clearing the flag register and plotting its pixels. -/
theorem drawSprite_eq_foldl_plot (state : State) (x y : UInt8) {sprite : List UInt8}
    (fits : sprite.length ≤ Frame.height) :
    state.drawSprite x y sprite =
      { (Sprite.points x.toNat y.toNat sprite).foldl plot (state.setRegister .flag 0) with
        redraw := true } := by
  rw [foldl_plot _ (Sprite.nodup_points _ _ fits)]
  have sameFrame : (state.setRegister .flag 0).frame = state.frame := rfl
  rw [sameFrame]
  cases lit : state.frame.anyLit (Sprite.points x.toNat y.toNat sprite) <;>
    simp [drawSprite, lit, setRegister, Bool.toUInt8]

end State

end ChipEight
