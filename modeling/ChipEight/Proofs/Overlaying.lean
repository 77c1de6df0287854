import ChipEight.Proofs.Footprint
import ChipEight.Proofs.InPlace.Calls
import ChipEight.Proofs.Nesting
import Mathlib.Data.List.Perm.Basic

/-!
# Pictures as overlaid footprints

Until the picture is cleared, nothing but drawing changes it, and drawing toggles
the pixels of a footprint.  The picture after a run is thus the one before it,
overlaid with the footprints of all sprites drawn on the way.  Overlaying
commutes and undoes itself, so that only the parity matters of how often a pixel
was reached, and a sprite that is drawn twice in a row leaves no trace but the
flag.
-/

namespace ChipEight

namespace Frame

/-- Toggle the pixels of a footprint. -/
def overlay (frame : Frame) (footprint : Point → Bool) : Frame where
  rows := Vector.ofFn fun row => Vector.ofFn fun column =>
    frame.pixel ⟨row, column⟩ ^^^ (footprint ⟨row, column⟩).toUInt8

@[simp]
theorem pixel_overlay (frame : Frame) (footprint : Point → Bool) (point : Point) :
    (frame.overlay footprint).pixel point = frame.pixel point ^^^ (footprint point).toUInt8 := by
  simp [overlay, pixel]

theorem overlay_right_comm (frame : Frame) (first second : Point → Bool) :
    (frame.overlay first).overlay second = (frame.overlay second).overlay first := by
  ext point : 1
  simp only [pixel_overlay, UInt8.xor_assoc, UInt8.xor_comm (first point).toUInt8]

theorem overlay_overlay_self (frame : Frame) (footprint : Point → Bool) :
    (frame.overlay footprint).overlay footprint = frame := by
  ext point : 1
  simp only [pixel_overlay, UInt8.xor_assoc, UInt8.xor_self, UInt8.xor_zero]

instance : RightCommutative overlay :=
  ⟨overlay_right_comm⟩

/-- A pixel is toggled in the end if an odd number of footprints reach it. -/
theorem pixel_foldl_overlay (frame : Frame) (footprints : List (Point → Bool)) (point : Point) :
    (footprints.foldl overlay frame).pixel point =
      frame.pixel point ^^^
        UInt8.ofNat ((footprints.countP fun footprint => footprint point) % 2) := by
  induction footprints generalizing frame with
  | nil => exact UInt8.xor_zero.symm
  | cons footprint footprints ih =>
      rw [List.foldl_cons, ih, pixel_overlay, UInt8.xor_assoc, List.countP_cons]
      congr 1
      cases footprint point with
      | false => exact UInt8.zero_xor
      | true =>
          rcases Nat.mod_two_eq_zero_or_one (footprints.countP fun footprint => footprint point)
            with even | odd
          · rw [if_pos rfl, Nat.add_mod, even]
            rfl
          · rw [if_pos rfl, Nat.add_mod, odd]
            rfl

/-- Toggling the points of a footprint is overlaying it. -/
theorem eq_overlay_of_toggled {before after : Frame} {footprint : Point → Bool}
    (toggled : ∀ point, after.pixel point =
      if footprint point then before.pixel point ^^^ 1 else before.pixel point) :
    after = before.overlay footprint := by
  ext point : 1
  rw [toggled, pixel_overlay]
  cases footprint point with
  | false => exact UInt8.xor_zero.symm
  | true => rfl

end Frame

/-- Only memory and the index register tell which sprite is drawn. -/
theorem State.inks_congr {first second : State} (memory : first.memory = second.memory)
    (index : first.index = second.index) : first.inks = second.inks := by
  funext x y height point
  simp only [inks, memory, index]

namespace Word

/-- The footprint of the sprite that a word `Dxyn` draws in a state. -/
def footprint (word : Word) (state : State) : Point → Bool :=
  state.inks (state.register word.x) (state.register word.y) word.digit.val

/-- The footprint of the sprite that a word draws, if it draws one. -/
def footprint? (word : Word) (state : State) : Option (Point → Bool) :=
  if word.isDraw then some (word.footprint state) else none

/-- What drawing a sprite leaves. -/
structure Drawn (word : Word) (before after : State) : Prop where
  frame : after.frame = before.frame.overlay (word.footprint before)
  flagged : after.register .flag = 0 ∨ after.register .flag = 1
  collides : after.register .flag = 1 ↔
    ∃ point, word.footprint before point = true ∧ before.frame.pixel point = 1
  kept : ∀ register, register ≠ .flag → after.register register = before.register register
  index : after.index = before.index
  memory : after.memory = before.memory
  pc : after.pc = before.pc + 2

variable {word : Word} {dialect : Dialect} {byte : UInt8} {before after once : State}

theorem exists_read_of_execute (draws : word.isDraw = true)
    (executed : word.execute dialect byte before = .ok after) :
    ∃ sprite, before.memory.read? before.index.toNat word.digit.val = some sprite ∧
      before.next.drawSprite (before.register word.x) (before.register word.y) sprite = after := by
  simp only [execute, decode_of_isDraw draws] at executed
  obtain ⟨sprite, read, drawnEq⟩ := Instruction.execute_draw_eq_ok_iff.mp executed
  exact ⟨sprite, State.read_eq_ok_iff.mp read, drawnEq⟩

theorem drawn_of_execute (draws : word.isDraw = true)
    (executed : word.execute dialect byte before = .ok after) : word.Drawn before after := by
  obtain ⟨sprite, found, rfl⟩ := exists_read_of_execute draws executed
  have foundNext : before.next.memory.read? before.next.index.toNat word.digit.val =
      some sprite := found
  have fits : word.digit.val ≤ Frame.height :=
    Nat.le_of_lt (Nat.lt_trans word.digit.isLt (by decide))
  obtain ⟨toggled, collides, flagged⟩ := State.drawSprite_eq foundNext fits
    (before.register word.x) (before.register word.y)
  exact {
    frame := Frame.eq_overlay_of_toggled toggled
    flagged
    collides
    kept := fun register other => before.next.register_drawSprite_of_ne _ _ _ other
    index := rfl
    memory := rfl
    pc := rfl }

/-- A sprite that is not placed by the flag register stays where it is. -/
theorem Drawn.footprint_eq (drawn : word.Drawn before once) (column : word.x ≠ .flag)
    (row : word.y ≠ .flag) : word.footprint once = word.footprint before := by
  rw [footprint, footprint, State.inks_congr drawn.memory drawn.index, drawn.kept _ column,
    drawn.kept _ row]

/-- A word that does not clear the picture overlays it with the footprint of the
sprite that it draws, if it draws one. -/
theorem frame_of_uncleared (uncleared : word.isClear = false)
    (executed : word.execute dialect byte before = .ok after) :
    after.frame = (word.footprint? before).elim before.frame before.frame.overlay := by
  cases draws : word.isDraw with
  | true =>
      rw [footprint?, if_pos draws, Option.elim_some]
      exact (drawn_of_execute draws executed).frame
  | false =>
      rw [footprint?, draws, if_neg Bool.false_ne_true, Option.elim_none]
      unfold execute at executed
      split at executed
      · rename_i instruction decoded
        rcases Instruction.frame_of_execute executed with
          ⟨same, -⟩ | ⟨rfl, -⟩ | ⟨x, y, height, sprite, rfl, -⟩
        · exact same
        · cases uncleared.symm.trans (isClear_iff.mpr decoded)
        · cases draws.symm.trans (isDraw_of_decode decoded)
      · cases executed
        rfl

theorem draws_twice (draws : word.isDraw = true) (column : word.x ≠ .flag) (row : word.y ≠ .flag)
    (executed : word.execute dialect byte before = .ok once) :
    ∃ twice, word.execute dialect byte once = .ok twice ∧ twice.frame = before.frame ∧
      (once.register .flag = 0 ∨ once.register .flag = 1) ∧
      (once.register .flag = 1 ↔
        ∃ point, word.footprint before point = true ∧ before.frame.pixel point = 1) ∧
      (twice.register .flag = 0 ∨ twice.register .flag = 1) ∧
      (twice.register .flag = 1 ↔
        ∃ point, word.footprint before point = true ∧ before.frame.pixel point = 0) := by
  have drawn := drawn_of_execute draws executed
  obtain ⟨sprite, found, -⟩ := exists_read_of_execute draws executed
  rw [← drawn.memory, ← drawn.index] at found
  have repeated := execute_of_draw (eq_of_beq draws) found dialect byte
  have redrawn := drawn_of_execute draws repeated
  have sameFootprint := drawn.footprint_eq column row
  refine ⟨_, repeated, ?_, drawn.flagged, drawn.collides, redrawn.flagged, ?_⟩
  · rw [redrawn.frame, sameFootprint, drawn.frame, Frame.overlay_overlay_self]
  · rw [redrawn.collides, sameFootprint]
    refine exists_congr fun point => and_congr_right fun inked => ?_
    -- A pixel of the footprint is lit now exactly if it was dark before.
    rw [drawn.frame, Frame.pixel_overlay, inked]
    have flips : before.frame.pixel point ^^^ 1 = 0 ^^^ 1 ↔ before.frame.pixel point = 0 :=
      UInt8.xor_left_inj 1
    exact flips

end Word

namespace Exchange

/-- Whether the picture was cleared. -/
def clears (exchange : Exchange) : Bool :=
  exchange.executed?.any Word.isClear

/-- The footprint of the sprite that was drawn. -/
def footprint? (exchange : Exchange) : Option (Point → Bool) :=
  exchange.executed?.bind fun word => word.footprint? exchange.before.state

theorem footprint?_of_draw {before : Machine} {word : Word} {state : State}
    (draws : word.isDraw = true) (fetched : before.state.fetch = .ok word)
    (executed : word.execute before.config.dialect before.random.byte before.state = .ok state) :
    clears ⟨before, .step⟩ = false ∧
      footprint? ⟨before, .step⟩ = some (word.footprint before.state) := by
  have recorded := executed?_of_executed fetched executed
  rw [clears, footprint?, recorded]
  exact ⟨Word.isClear_of_isDraw draws, if_pos draws⟩

variable {exchange : Exchange}

theorem frame_after (onward : exchange.call.onward = true)
    (uncleared : exchange.clears = false) :
    exchange.after.state.frame =
      exchange.footprint?.elim exchange.before.state.frame
        exchange.before.state.frame.overlay := by
  cases recorded : exchange.executed? with
  | none =>
      obtain ⟨peripherals, stateEq⟩ := exists_withPeripherals_of_unexecuted onward recorded
      rw [stateEq, footprint?, recorded]
      rfl
  | some word =>
      obtain ⟨-, -, state, executed, afterEq⟩ := exists_of_executed? recorded
      rw [clears, recorded, Option.any_some] at uncleared
      rw [afterEq, footprint?, recorded, Option.bind_some]
      exact Word.frame_of_uncleared uncleared executed

end Exchange

namespace Machine

/-- The footprints of the sprites drawn in a run, in order. -/
def footprints (machine : Machine) (calls : List Call) : List (Point → Bool) :=
  (machine.exchanges calls).filterMap Exchange.footprint?

/-- A run that goes on without clearing the picture. -/
structure DrawsOnward (machine : Machine) (calls : List Call) : Prop where
  onward : ∀ call ∈ calls, call.onward = true
  uncleared : ∀ exchange ∈ machine.exchanges calls, exchange.clears = false

variable {machine : Machine} {call : Call} {calls : List Call}

theorem footprints_cons (machine : Machine) (call : Call) (calls : List Call) :
    machine.footprints (call :: calls) =
      (Exchange.footprint? ⟨machine, call⟩).toList ++
        (machine.perform call).machine.footprints calls := by
  rw [footprints, exchanges, List.filterMap_cons]
  cases Exchange.footprint? ⟨machine, call⟩ <;> rfl

namespace DrawsOnward

theorem of_cons (run : machine.DrawsOnward (call :: calls)) :
    call.onward = true ∧ Exchange.clears ⟨machine, call⟩ = false ∧
      (machine.perform call).machine.DrawsOnward calls := by
  obtain ⟨onward, onwardLater⟩ := List.forall_mem_cons.mp run.onward
  obtain ⟨uncleared, unclearedLater⟩ := List.forall_mem_cons.mp run.uncleared
  exact ⟨onward, uncleared, onwardLater, unclearedLater⟩

/-- The picture after a run is the one before it, overlaid with the footprints of
the sprites drawn in it. -/
theorem frame_performAll (run : machine.DrawsOnward calls) :
    (machine.performAll calls).state.frame =
      (machine.footprints calls).foldl Frame.overlay machine.state.frame := by
  induction calls generalizing machine with
  | nil => rfl
  | cons call calls ih =>
      obtain ⟨onward, uncleared, later⟩ := run.of_cons
      have first : (machine.perform call).machine.state.frame = _ :=
        Exchange.frame_after onward uncleared
      rw [performAll_cons, ih later, footprints_cons, List.foldl_append, first]
      cases Exchange.footprint? ⟨machine, call⟩ <;> rfl

end DrawsOnward

/-- A run that does not rewind, restart or clear overlays the picture with the footprints of
the sprites drawn in it, in whatever order.  Drawn twice in a row, a sprite is erased. -/
theorem frame_eq_overlaid_footprints (run : machine.DrawsOnward calls) :
    let reached := machine.performAll calls
    let footprints := machine.footprints calls
    reached.state.frame = footprints.foldl Frame.overlay machine.state.frame ∧
      (∀ point, reached.state.frame.pixel point = machine.state.frame.pixel point ^^^
        UInt8.ofNat ((footprints.countP fun footprint => footprint point) % 2)) ∧
      (∀ (other : Machine) (others : List Call), other.DrawsOnward others →
        other.state.frame = machine.state.frame → (other.footprints others).Perm footprints →
          (other.performAll others).state.frame = reached.state.frame) ∧
      (machine.Bounded → ∀ log,
        (Effect.outcome (Call.inPlaceAll calls) ⟨machine, log⟩).2.machine = reached) ∧
      ∀ (word : Word) (dialect : Dialect) (byte : UInt8) (state once : State),
        word.isDraw = true → word.x ≠ .flag → word.y ≠ .flag →
        word.execute dialect byte state = .ok once →
        ∃ twice, word.execute dialect byte once = .ok twice ∧ twice.frame = state.frame ∧
          (once.register .flag = 0 ∨ once.register .flag = 1) ∧
          (once.register .flag = 1 ↔
            ∃ point, word.footprint state point = true ∧ state.frame.pixel point = 1) ∧
          (twice.register .flag = 0 ∨ twice.register .flag = 1) ∧
          (twice.register .flag = 1 ↔
            ∃ point, word.footprint state point = true ∧ state.frame.pixel point = 0) := by
  intro reached footprints
  have overlaid : reached.state.frame = _ := run.frame_performAll
  refine ⟨overlaid, ?_, ?_, ?_, ?_⟩
  · intro point
    rw [overlaid, Frame.pixel_foldl_overlay]
  · intro other others otherRun sameStart sameFootprints
    rw [otherRun.frame_performAll, sameStart, overlaid]
    exact sameFootprints.foldl_eq _
  · intro bounded log
    rw [Call.outcome_inPlaceAll calls ⟨machine, log⟩ bounded]
  · intro word dialect byte state once draws column row executed
    exact Word.draws_twice draws column row executed

theorem footprints_of_redrawn {word : Word} (draws : word.isDraw = true) (column : word.x ≠ .flag)
    (row : word.y ≠ .flag) (fetched : machine.state.fetch = .ok word) {once : State}
    (executed : word.execute machine.config.dialect machine.random.byte machine.state = .ok once)
    (refetched : once.fetch = .ok word) :
    machine.DrawsOnward [.step, .step] ∧ machine.footprints [.step, .step] =
      [word.footprint machine.state, word.footprint machine.state] := by
  have drawn := Word.drawn_of_execute draws executed
  obtain ⟨sprite, found, -⟩ := Word.exists_read_of_execute draws executed
  rw [← drawn.memory, ← drawn.index] at found
  have stepped : machine.step.machine.state = once :=
    congrArg (fun outcome => outcome.machine.state) (step_of_executed fetched executed)
  rw [← stepped] at refetched found
  have repeated := Word.execute_of_draw (eq_of_beq draws) found machine.step.machine.config.dialect
    machine.step.machine.random.byte
  obtain ⟨uncleared, footprint⟩ := Exchange.footprint?_of_draw draws fetched executed
  obtain ⟨unclearedAgain, footprintAgain⟩ :=
    Exchange.footprint?_of_draw draws refetched repeated
  rw [stepped, drawn.footprint_eq column row] at footprintAgain
  have exchangesEq : machine.exchanges [.step, .step] =
      [⟨machine, .step⟩, ⟨machine.step.machine, .step⟩] := rfl
  refine ⟨⟨?_, ?_⟩, ?_⟩
  · exact List.forall_mem_cons.mpr ⟨rfl, List.forall_mem_singleton.mpr rfl⟩
  · rw [exchangesEq]
    exact List.forall_mem_cons.mpr ⟨uncleared, List.forall_mem_singleton.mpr unclearedAgain⟩
  · simp only [footprints, exchangesEq, List.filterMap_cons, footprint, footprintAgain,
      List.filterMap_nil]

/-- A program that draws the glyph for zero in the top left corner twice. -/
def twiceDrawing : Machine :=
  ((new {} (.cycle #[])).perform (.load #[0xD0, 0x05, 0xD0, 0x05])).machine

/-- The second glyph erases the first. -/
theorem frame_eq_overlaid_footprints_twice :
    twiceDrawing.DrawsOnward [.step, .step] ∧
      (twiceDrawing.footprints [.step, .step]).length = 2 ∧
      (twiceDrawing.performAll [.step, .step]).state.frame = twiceDrawing.state.frame := by
  have fits : #[(0xD0 : UInt8), 0x05, 0xD0, 0x05].size ≤ Memory.programCapacity := by decide
  have first : #[(0xD0 : UInt8), 0x05, 0xD0, 0x05][0]? = some 0xD0 := rfl
  have second : #[(0xD0 : UInt8), 0x05, 0xD0, 0x05][1]? = some 0x05 := rfl
  have third : #[(0xD0 : UInt8), 0x05, 0xD0, 0x05][2]? = some 0xD0 := rfl
  have fourth : #[(0xD0 : UInt8), 0x05, 0xD0, 0x05][3]? = some 0x05 := rfl
  have stateEq : twiceDrawing.state = .boot #[0xD0, 0x05, 0xD0, 0x05] := by
    rw [twiceDrawing, perform_load_of_fits _ fits]
    rfl
  have fetched : twiceDrawing.state.fetch = .ok 0xD005 := by
    rw [stateEq]
    exact State.fetch_boot first second
  have draws : (0xD005 : Word).isDraw = true := by decide
  have inside : (0xD005 : Word).digit.val = 0 ∨
      twiceDrawing.state.index.toNat + (0xD005 : Word).digit.val ≤ Memory.size := by
    rw [stateEq]
    decide
  obtain ⟨sprite, found, -⟩ := twiceDrawing.state.read_of_inside inside
  have executed := Word.execute_of_draw (eq_of_beq draws) found twiceDrawing.config.dialect
    twiceDrawing.random.byte
  have drawn := Word.drawn_of_execute draws executed
  have holds := drawn.memory.trans (congrArg State.memory stateEq)
  have counter := drawn.pc.trans (congrArg (fun state : State => state.pc + 2) stateEq)
  have refetched := State.fetch_second holds counter third fourth
  obtain ⟨run, footprintsEq⟩ :=
    footprints_of_redrawn draws (by decide) (by decide) fetched executed refetched
  refine ⟨run, by rw [footprintsEq]; rfl, ?_⟩
  rw [(frame_eq_overlaid_footprints run).1, footprintsEq]
  exact Frame.overlay_overlay_self ..

end Machine

end ChipEight
