import ChipEight.Proofs.Decoding
import ChipEight.Proofs.InPlace.Agreement

/-!
# The footprint of a sprite

A sprite is drawn row by row and bit by bit, and every pixel wraps around the
edges on its own.  Whether it reaches a given pixel of the picture can still be
told at once: from how far the pixel lies behind the top left corner, counted
around the edges, and from one bit of memory.  No pixel is reached twice, so
drawing toggles the pixels of this footprint, and a collision is a lit pixel of
it.
-/

namespace ChipEight

namespace Frame

/-- How far a position lies behind an origin, counted around the edge of a
picture that is `size` pixels long. -/
def distance (size origin position : Nat) : Nat :=
  (((position : Int) - (origin : Int)) % (size : Int)).toNat

theorem distance_eq_iff {size origin position offset : Nat} (position_lt : position < size)
    (offset_lt : offset < size) :
    distance size origin position = offset ↔ (origin + offset) % size = position := by
  have positive : (size : Int) ≠ 0 := by omega
  have nonnegative := Int.emod_nonneg ((position : Int) - (origin : Int)) positive
  have asInt : distance size origin position = offset ↔
      ((position : Int) - (origin : Int)) % (size : Int) = (offset : Int) := by
    unfold distance
    omega
  have remainder : (origin + offset) % size = position ↔
      ((origin : Int) + (offset : Int)) % (size : Int) = (position : Int) := by
    rw [← Int.natCast_add, ← Int.natCast_emod, Int.ofNat_inj]
  rw [asInt, remainder, Int.emod_eq_iff positive, Int.emod_eq_iff positive]
  have negated : (position : Int) - ((origin : Int) + (offset : Int)) =
      -((offset : Int) - ((position : Int) - (origin : Int))) := by omega
  rw [negated, Int.dvd_neg]
  constructor
  · rintro ⟨-, -, divides⟩
    exact ⟨by omega, by omega, divides⟩
  · rintro ⟨-, -, divides⟩
    exact ⟨by omega, by omega, divides⟩

/-- Toggling points of which none comes twice. -/
theorem pixel_toggleAll (frame : Frame) {points : List Point} (distinct : points.Nodup)
    (point : Point) :
    (frame.toggleAll points).pixel point =
      if point ∈ points then frame.pixel point ^^^ 1 else frame.pixel point := by
  induction points generalizing frame with
  | nil => rfl
  | cons first rest ih =>
      obtain ⟨notMem, restDistinct⟩ := List.nodup_cons.mp distinct
      have toggled : (frame.toggleAll (first :: rest)).pixel point =
          if point ∈ rest then (frame.toggle first).pixel point ^^^ 1
          else (frame.toggle first).pixel point :=
        ih (frame.toggle first) restDistinct
      by_cases same : first = point
      · subst first
        rw [toggled, if_neg notMem, if_pos List.mem_cons_self, pixel_toggle_self]
      · have sameMem : point ∈ first :: rest ↔ point ∈ rest := by
          rw [List.mem_cons, or_iff_right (Ne.symm same)]
        rw [toggled, pixel_toggle_of_ne frame same]
        simp only [sameMem]

end Frame

namespace Sprite

theorem mem_points {x y : Nat} {bytes : List UInt8} {point : Point} :
    point ∈ points x y bytes ↔
      ∃ offset byte, bytes[offset]? = some byte ∧
        point ∈ rowPoints x (Fin.ofNat Frame.height (y + offset)) byte := by
  induction bytes generalizing y with
  | nil => simp [points]
  | cons first rest ih =>
      rw [points, List.mem_append, ih]
      constructor
      · rintro (here | ⟨offset, byte, found, later⟩)
        · exact ⟨0, first, rfl, here⟩
        · refine ⟨offset + 1, byte, found, ?_⟩
          rwa [Nat.add_comm offset 1, ← Nat.add_assoc]
      · rintro ⟨offset, byte, found, member⟩
        cases offset with
        | zero =>
            cases found
            exact Or.inl member
        | succ offset =>
            refine Or.inr ⟨offset, byte, found, ?_⟩
            rwa [Nat.add_comm offset 1, ← Nat.add_assoc] at member

/-- Whether a sprite reaches a point is told by the distances of the point from
its top left corner. -/
theorem mem_points_iff {x y : Nat} {bytes : List UInt8} (fits : bytes.length ≤ Frame.height)
    {point : Point} :
    point ∈ points x y bytes ↔
      ∃ byte, bytes[Frame.distance Frame.height y point.row]? = some byte ∧
        Frame.distance Frame.width x point.column < 8 ∧
        byte.toNat.testBit (7 - Frame.distance Frame.width x point.column) = true := by
  rw [mem_points]
  constructor
  · rintro ⟨offset, byte, found, member⟩
    obtain ⟨bit, bit_lt, inked, rfl⟩ := mem_rowPoints.mp member
    have offset_lt : offset < bytes.length := (List.getElem?_eq_some_iff.mp found).1
    have rowEq : Frame.distance Frame.height y ((y + offset) % Frame.height) = offset :=
      (Frame.distance_eq_iff (Nat.mod_lt _ (by decide)) (Nat.lt_of_lt_of_le offset_lt fits)).mpr
        rfl
    have within := Nat.lt_trans bit_lt (by decide : 8 < Frame.width)
    have columnEq : Frame.distance Frame.width x ((x + bit) % Frame.width) = bit :=
      (Frame.distance_eq_iff (Nat.mod_lt _ (by decide)) within).mpr rfl
    refine ⟨byte, ?_, ?_, ?_⟩
    · rw [Fin.val_ofNat, rowEq]
      exact found
    · rw [Fin.val_ofNat, columnEq]
      exact bit_lt
    · rw [Fin.val_ofNat, columnEq]
      exact inked
  · rintro ⟨byte, found, bit_lt, inked⟩
    have offset_lt := (List.getElem?_eq_some_iff.mp found).1
    have rowEq := (Frame.distance_eq_iff point.row.isLt (Nat.lt_of_lt_of_le offset_lt fits)).mp rfl
    have within := Nat.lt_trans bit_lt (by decide : 8 < Frame.width)
    have columnEq := (Frame.distance_eq_iff point.column.isLt within).mp rfl
    refine ⟨_, byte, found, mem_rowPoints.mpr ⟨_, bit_lt, inked, ?_⟩⟩
    obtain ⟨row, column⟩ := point
    congr 1
    · exact Fin.ext rowEq
    · exact Fin.ext columnEq

end Sprite

namespace State

/-- Whether a sprite in memory at the index register reaches a point, if its top
left corner is drawn at column `x` and row `y`. -/
def inks (state : State) (x y : UInt8) (height : Nat) (point : Point) : Bool :=
  let row := Frame.distance Frame.height y.toNat point.row
  let column := Frame.distance Frame.width x.toNat point.column
  row < height && column < 8 &&
    (state.memory.cells[state.index.toNat + row]?).any fun byte =>
      byte.toNat.testBit (7 - column)

theorem mem_points_iff_inks {state : State} {height : Nat} {sprite : List UInt8}
    (found : state.memory.read? state.index.toNat height = some sprite)
    (fits : height ≤ Frame.height) (x y : UInt8) (point : Point) :
    point ∈ Sprite.points x.toNat y.toNat sprite ↔ state.inks x y height point = true := by
  have length := Memory.length_of_read? found
  rw [Sprite.mem_points_iff (by omega), inks]
  simp only [Bool.and_eq_true, decide_eq_true_eq, Option.any_eq_true, and_assoc]
  constructor
  · rintro ⟨byte, stored, column_lt, inked⟩
    have row_lt := (List.getElem?_eq_some_iff.mp stored).1
    rw [length] at row_lt
    rw [Memory.getElem?_of_read? found row_lt] at stored
    exact ⟨row_lt, column_lt, byte, stored, inked⟩
  · rintro ⟨row_lt, column_lt, byte, stored, inked⟩
    rw [← Memory.getElem?_of_read? found row_lt] at stored
    exact ⟨byte, stored, column_lt, inked⟩

theorem register_drawSprite_of_ne (state : State) (x y : UInt8) (sprite : List UInt8)
    {register : Register} (other : register ≠ .flag) :
    (state.drawSprite x y sprite).register register = state.register register := by
  have otherIndex : Register.flag.val ≠ register.val := fun same => other (Fin.ext same).symm
  simp [drawSprite, setRegister, State.register, Vector.getElem_set_ne, otherIndex]

theorem register_drawSprite_flag (state : State) (x y : UInt8) (sprite : List UInt8) :
    (state.drawSprite x y sprite).register .flag =
      (state.frame.anyLit (Sprite.points x.toNat y.toNat sprite)).toUInt8 :=
  state.register_setRegister_self .flag _

/-- What drawing a sprite does to the picture and to the flag register. -/
theorem drawSprite_eq {state : State} {height : Nat} {sprite : List UInt8}
    (found : state.memory.read? state.index.toNat height = some sprite)
    (fits : height ≤ Frame.height) (x y : UInt8) :
    let drawn := state.drawSprite x y sprite
    (∀ point, drawn.frame.pixel point =
        if state.inks x y height point then state.frame.pixel point ^^^ 1
        else state.frame.pixel point) ∧
      (drawn.register .flag = 1 ↔
        ∃ point, state.inks x y height point = true ∧ state.frame.pixel point = 1) ∧
      (drawn.register .flag = 0 ∨ drawn.register .flag = 1) := by
  intro drawn
  have inked := mem_points_iff_inks found fits x y
  have length := Memory.length_of_read? found
  refine ⟨?_, ?_, ?_⟩
  · intro point
    have toggled := state.frame.pixel_toggleAll
      (Sprite.nodup_points x.toNat y.toNat (by omega : sprite.length ≤ Frame.height)) point
    simp only [inked] at toggled
    exact toggled
  · have collides : drawn.register .flag = 1 ↔
        state.frame.anyLit (Sprite.points x.toNat y.toNat sprite) = true := by
      rw [register_drawSprite_flag]
      cases state.frame.anyLit (Sprite.points x.toNat y.toNat sprite) <;> simp [Bool.toUInt8]
    rw [collides, Frame.anyLit, List.any_eq_true]
    simp only [inked, beq_iff_eq]
  · rw [register_drawSprite_flag]
    cases state.frame.anyLit (Sprite.points x.toNat y.toNat sprite) with
    | false => exact Or.inl rfl
    | true => exact Or.inr rfl

end State

namespace Word

theorem execute_of_draw {word : Word} (draws : word.family.val = 0xD) {state : State}
    {sprite : List UInt8}
    (found : state.memory.read? state.index.toNat word.digit.val = some sprite)
    (dialect : Dialect) (byte : UInt8) :
    word.execute dialect byte state =
      .ok (state.next.drawSprite (state.register word.x) (state.register word.y) sprite) := by
  have decoded := decode_eq_draw_iff.mpr ⟨draws, rfl, rfl, rfl⟩
  simp only [execute, decoded, Instruction.execute, State.read, found]

/-- A word `Dxyn`, in place as well, toggles the pixels that its sprite reaches, if the
sprite lies in memory or is empty, and the flag register tells whether one of them was
lit.  Nothing else changes but the program counter and the mark of the picture. -/
theorem toggles_footprint {word : Word} (draws : word.family.val = 0xD) {state : State}
    (inside : word.digit.val = 0 ∨ state.index.toNat + word.digit.val ≤ Memory.size)
    (dialect : Dialect) (byte : UInt8) :
    let inks := state.inks (state.register word.x) (state.register word.y) word.digit.val
    ∃ after, word.execute dialect byte state = .ok after ∧
      (∀ point, after.frame.pixel point =
        if inks point then state.frame.pixel point ^^^ 1 else state.frame.pixel point) ∧
      (after.register .flag = 1 ↔
        ∃ point, inks point = true ∧ state.frame.pixel point = 1) ∧
      (after.register .flag = 0 ∨ after.register .flag = 1) ∧
      (∀ register, register ≠ .flag → after.register register = state.register register) ∧
      after = { state with
        pc := state.pc + 2, registers := after.registers, frame := after.frame, redraw := true } ∧
      (state.frame.Binary → after.frame.Binary) ∧
      ∀ bench : Bench, state.pc.toNat + 2 ≤ Memory.size →
        Effect.outcome ((Instruction.draw word.x word.y word.digit).inPlace dialect)
            (bench.withState state.next) = (.ok (), bench.withState after) := by
  intro inks
  obtain ⟨sprite, found, -⟩ := state.read_of_inside inside
  have executed := execute_of_draw draws found dialect byte
  have fits : word.digit.val ≤ Frame.height :=
    Nat.le_of_lt (Nat.lt_trans word.digit.isLt (by decide))
  have foundNext : state.next.memory.read? state.next.index.toNat word.digit.val = some sprite :=
    found
  obtain ⟨toggled, collides, flagged⟩ := State.drawSprite_eq foundNext fits
    (state.register word.x) (state.register word.y)
  refine ⟨_, executed, toggled, collides, flagged, ?_, rfl, ?_, ?_⟩
  · intro register other
    exact state.next.register_drawSprite_of_ne _ _ _ other
  · intro binary
    exact binary.toggleAll _
  · intro bench fetched
    have carried := Instruction.agrees_draw dialect (bench.withState state) word.x word.y
      word.digit fetched
    have whole : (Instruction.draw word.x word.y word.digit).execute dialect
        bench.machine.random.byte state = .ok (state.next.drawSprite (state.register word.x)
          (state.register word.y) sprite) := by
      simp only [Instruction.execute, State.read, found]
    unfold Instruction.Agrees at carried
    rw [Bench.state_withState, Bench.withState_withState] at carried
    rw [carried, show (bench.withState state).machine.random = bench.machine.random from rfl, whole]
    rfl

/-- The second pixel of the first row. -/
def wrappedPoint : Point where
  row := ⟨0, Nat.succ_pos 31⟩
  column := ⟨1, Nat.one_lt_succ_succ 62⟩

/-- A state that is about to draw in the bottom right corner, two pixels from the
right edge.  The flag register holds the column. -/
def cornered : State :=
  let placed := (State.initial.setRegister .flag 62).setRegister .offset 31
  { placed with frame := Frame.blank.setPixel wrappedPoint 1 }

theorem inks_cornered : cornered.inks 62 31 5 wrappedPoint = true := by
  have stored : cornered.memory.cells[1]? = some 0x90 := Memory.getElem?_image #[] (by decide)
  have row : Frame.distance Frame.height (31 : UInt8).toNat wrappedPoint.row = 1 := by decide
  have column : Frame.distance Frame.width (62 : UInt8).toNat wrappedPoint.column = 3 := by decide
  have address : cornered.index.toNat + 1 = 1 := rfl
  simp only [State.inks, row, column, address, stored]
  decide

/-- The second row of the glyph for zero wraps around both edges and collides
with a lit pixel there. -/
theorem toggles_footprint_cornered :
    let word : Word := 0xDF05
    word.family.val = 0xD ∧
      (word.digit.val = 0 ∨ cornered.index.toNat + word.digit.val ≤ Memory.size) ∧
      ∃ after, word.execute {} 0 cornered = .ok after ∧
        after.frame.pixel wrappedPoint = 0 ∧ after.register .flag = 1 := by
  intro word
  have draws : word.family.val = 0xD := by decide
  have inside : word.digit.val = 0 ∨ cornered.index.toNat + word.digit.val ≤ Memory.size :=
    Or.inr (by decide)
  refine ⟨draws, inside, ?_⟩
  obtain ⟨after, executed, toggled, collides, -⟩ := toggles_footprint draws inside {} 0
  have column : cornered.register word.x = 62 := by decide
  have row : cornered.register word.y = 31 := by decide
  have height : word.digit.val = 5 := by decide
  have inked : cornered.inks (cornered.register word.x) (cornered.register word.y)
      word.digit.val wrappedPoint = true := by
    rw [column, row, height]
    exact inks_cornered
  have lit : cornered.frame.pixel wrappedPoint = 1 := Frame.pixel_setPixel_self ..
  refine ⟨after, executed, ?_, collides.mpr ⟨wrappedPoint, inked, lit⟩⟩
  rw [toggled wrappedPoint, if_pos inked, lit]
  rfl

end Word

end ChipEight
