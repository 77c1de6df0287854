import ChipEight.Proofs.Calls
import ChipEight.Proofs.Execution
import ChipEight.Proofs.Fetching

/-!
# What a screen shows

A screen shows the picture that was presented last.  It is up to date whenever
no redraw is pending, unless the machine started over in the meantime: starting
over blanks the picture without asking for it to be presented.
-/

namespace ChipEight

theorem Word.frame_of_execute {word : Word} {dialect : Dialect} {byte : UInt8}
    {before after : State} (executed : word.execute dialect byte before = .ok after) :
    (after.frame = before.frame ∧ after.redraw = before.redraw) ∨ after.redraw = true := by
  unfold Word.execute at executed
  split at executed
  · rcases Instruction.frame_of_execute executed with same | ⟨-, -, raised⟩ | drawn
    · exact Or.inl same
    · exact Or.inr raised
    · obtain ⟨_, _, _, _, -, -, -, raised⟩ := drawn
      exact Or.inr raised
  · cases executed
    exact Or.inl ⟨rfl, rfl⟩

/-- The picture presented last, and whether the machine started over since
then. -/
structure Screen where
  picture : Frame
  restarted : Bool

namespace Screen

def dark : Screen where
  picture := .blank
  restarted := false

def note (screen : Screen) (before : Machine) : Call → Reply → Screen
  | .takeFrame, .frame (some picture) => { picture, restarted := false }
  | .clearRedraw, _ => { picture := before.state.frame, restarted := false }
  | .reset, _ => { screen with restarted := true }
  | .load _, .loaded (.ok _) => { screen with restarted := true }
  | .loadFrom _, .loaded (.ok _) => { screen with restarted := true }
  | _, _ => screen

def ofRun (config : Config) (random : RandomSource) (calls : List Call) : Screen :=
  Machine.observe note dark (.new config random) calls

/-- The picture that a machine holds while no redraw is pending. -/
def expected (screen : Screen) : Frame :=
  if screen.restarted then .blank else screen.picture

/-- A machine whose picture is the expected one unless a redraw is pending. -/
def Follows (screen : Screen) (machine : Machine) : Prop :=
  machine.state.redraw = false → machine.state.frame = screen.expected

namespace Follows

variable {screen : Screen} {machine : Machine}

theorem of_pending (pending : machine.state.redraw = true) : screen.Follows machine := by
  intro upToDate
  rw [pending] at upToDate
  cases upToDate

theorem congr (follows : screen.Follows machine) {after : Machine}
    (sameFrame : after.state.frame = machine.state.frame)
    (sameRedraw : after.state.redraw = machine.state.redraw) : screen.Follows after := by
  intro upToDate
  rw [sameFrame]
  exact follows (sameRedraw.symm.trans upToDate)

theorem performs (follows : screen.Follows machine) {call : Call} {reply : Reply}
    {after : Machine} (performed : machine.Performs call reply after) :
    (screen.note machine call reply).Follows after := by
  cases performed with
  | executed fetched executed =>
      rcases Word.frame_of_execute executed with ⟨sameFrame, sameRedraw⟩ | raised
      · exact follows.congr sameFrame sameRedraw
      · exact of_pending raised
  -- A restored picture is presented again whether it differs or not.
  | rewound past => exact of_pending rfl
  | taken pending =>
      intro upToDate
      rfl
  | cleared =>
      intro upToDate
      rfl
  | reset =>
      intro upToDate
      rfl
  | loaded fits =>
      intro upToDate
      rfl
  | loadedFrom fits =>
      intro upToDate
      rfl
  | ticked => exact follows.congr rfl rfl
  | held down named => exact follows.congr rfl rfl
  | faulted faulted => exact follows
  | exhausted past => exact follows
  | ignored down named => exact follows
  | upToDate quiet => exact follows
  | tooLarge tooLarge => exact follows
  | refusedFrom => exact follows

end Follows

theorem follows_ofRun (config : Config) (random : RandomSource) (calls : List Call) :
    (ofRun config random calls).Follows ((Machine.new config random).performAll calls) := by
  refine Machine.invariant_observe note (fun machine screen => screen.Follows machine) ?_ ?_ calls
  · intro before call reply after screen follows performed
    exact follows.performs performed
  · intro upToDate
    rfl

theorem expected_eq_picture_iff (screen : Screen) :
    screen.expected = screen.picture ↔ screen.restarted = false ∨ screen.picture = .blank := by
  cases restarted : screen.restarted with
  | false => simp [expected, restarted]
  | true => simp [expected, restarted, eq_comm]

end Screen

namespace Machine

theorem state_step_of_draw {machine : Machine} {word : Word} {x y : Register} {height : Fin 16}
    {sprite : List UInt8} (fetched : machine.state.fetch = .ok word)
    (decoded : word.decode = some (.draw x y height))
    (found : machine.state.read machine.state.index height.val = .ok sprite) :
    (machine.perform .step).machine.state =
      machine.state.next.drawSprite (machine.state.register x) (machine.state.register y)
        sprite := by
  have executed : word.execute machine.config.dialect machine.random.byte machine.state =
      .ok (machine.state.next.drawSprite (machine.state.register x) (machine.state.register y)
        sprite) := by
    simp only [Word.execute, decoded]
    exact Instruction.execute_draw_eq_ok_iff.mpr ⟨sprite, found, rfl⟩
  simp only [perform, step_of_executed fetched executed, advance]

/-- A program draws the top row of the glyph for zero if that is its first
word. -/
theorem drawn_of_load (config : Config) (random : RandomSource) {program : Array UInt8}
    (first : program[0]? = some 0xD0) (second : program[1]? = some 0x01)
    (fits : program.size ≤ Memory.programCapacity) :
    let machine := (new config random).performAll [.load program, .step]
    machine.state.redraw = true ∧ machine.state.frame ≠ .blank := by
  intro machine
  have loaded : ((new config random).perform (.load program)).machine.state = .boot program := by
    simp only [perform, load, if_neg (Nat.not_lt.mpr fits), reset]
  have fetched : ((new config random).perform (.load program)).machine.state.fetch =
      .ok 0xD001 := by
    rw [loaded]
    exact State.fetch_boot first second
  have decoded : Word.decode 0xD001 = some (.draw 0 0 1) := rfl
  have found : (State.boot program).read (State.boot program).index 1 = .ok [0xF0] := by
    have cell : (Memory.image program).cells[0]? = some 0xF0 :=
      Memory.getElem?_image program (by decide)
    have block : (Memory.image program).read? 0 1 = some [0xF0] := by
      simp only [Memory.read?, cell]
    exact State.read_eq_ok_iff.mpr block
  have drawn : machine.state = (State.boot program).next.drawSprite 0 0 [0xF0] := by
    rw [← loaded] at found
    refine (state_step_of_draw fetched decoded found).trans ?_
    rw [loaded]
    rfl
  rw [drawn]
  refine ⟨rfl, ?_⟩
  intro dark
  have toggled : Frame.blank.toggleAll (Sprite.points 0 0 [0xF0]) = .blank := dark
  have lit : (Frame.blank.toggleAll (Sprite.points 0 0 [0xF0])).pixel ⟨0, 0⟩ = 1 := by
    decide
  rw [toggled, Frame.pixel_blank] at lit
  cases lit

theorem perform_takeFrame_of_pending {machine : Machine}
    (pending : machine.state.redraw = true) :
    machine.perform .takeFrame =
      ⟨.frame (some machine.state.frame), machine.clearRedraw, []⟩ := by
  simp only [perform, takeFrame, if_pos pending]

variable {config : Config} {random : RandomSource} {calls : List Call}

theorem presented_of_takeFrame
    (pending : ((new config random).performAll calls).state.redraw = true) :
    (new config random).performAll (calls ++ [.takeFrame]) =
        ((new config random).performAll calls).clearRedraw ∧
      Screen.ofRun config random (calls ++ [.takeFrame]) =
        ⟨((new config random).performAll calls).state.frame, false⟩ := by
  have taken := perform_takeFrame_of_pending pending
  constructor
  · rw [performAll_append]
    exact congrArg Outcome.machine taken
  · rw [Screen.ofRun, observe_append, observe, observe, taken]
    rfl

/-- Starting over leaves the picture on the screen that was there before. -/
theorem stale_of_reset (lit : (Screen.ofRun config random calls).picture ≠ .blank) :
    ((new config random).performAll (calls ++ [.reset])).state.redraw = false ∧
      ((new config random).performAll (calls ++ [.reset])).state.frame ≠
        (Screen.ofRun config random (calls ++ [.reset])).picture := by
  have started : (new config random).performAll (calls ++ [.reset]) =
      ((new config random).performAll calls).reset := by
    rw [performAll_append]
    rfl
  have kept : (Screen.ofRun config random (calls ++ [.reset])).picture =
      (Screen.ofRun config random calls).picture := by
    rw [Screen.ofRun, observe_append]
    rfl
  rw [started, kept]
  exact ⟨rfl, lit.symm⟩

theorem presented_of_load (config : Config) (random : RandomSource) {program : Array UInt8}
    (first : program[0]? = some 0xD0) (second : program[1]? = some 0x01)
    (fits : program.size ≤ Memory.programCapacity) :
    let calls := [.load program, .step, .takeFrame]
    ((new config random).performAll calls).state.redraw = false ∧
      (Screen.ofRun config random calls).restarted = false ∧
      (Screen.ofRun config random calls).picture ≠ .blank := by
  intro calls
  obtain ⟨pending, drawn⟩ := drawn_of_load config random first second fits
  obtain ⟨taken, shown⟩ := presented_of_takeFrame pending
  change (new config random).performAll calls = _ at taken
  change Screen.ofRun config random calls = _ at shown
  rw [taken, shown]
  exact ⟨rfl, rfl, drawn⟩

/-- While no redraw is pending, the picture of a machine is the one presented
last, or blank if the machine started over since then.  So a screen is stale
exactly if it shows a lit pixel from before the machine started over. -/
theorem frame_eq_picture_iff (config : Config) (random : RandomSource) (calls : List Call)
    (upToDate : ((new config random).performAll calls).state.redraw = false) :
    let machine := (new config random).performAll calls
    let screen := Screen.ofRun config random calls
    machine.state.frame = (if screen.restarted then .blank else screen.picture) ∧
      (machine.state.frame = screen.picture ↔
        screen.restarted = false ∨ screen.picture = .blank) := by
  intro machine screen
  have frameEq : machine.state.frame = screen.expected :=
    Screen.follows_ofRun config random calls upToDate
  refine ⟨frameEq, ?_⟩
  rw [frameEq]
  exact screen.expected_eq_picture_iff

/-- A sprite that was drawn and presented. -/
theorem frame_eq_picture_of_takeFrame :
    ((new {} (.cycle #[])).performAll
        [.load #[0xD0, 0x01], .step, .takeFrame]).state.redraw = false ∧
      ((new {} (.cycle #[])).performAll
          [.load #[0xD0, 0x01], .step, .takeFrame]).state.frame =
        (Screen.ofRun {} (.cycle #[]) [.load #[0xD0, 0x01], .step, .takeFrame]).picture := by
  have first : #[(0xD0 : UInt8), 0x01][0]? = some 0xD0 := rfl
  have second : #[(0xD0 : UInt8), 0x01][1]? = some 0x01 := rfl
  have presented := presented_of_load {} (.cycle #[]) first second (by decide)
  exact ⟨presented.1,
    (frame_eq_picture_iff {} (.cycle #[]) _ presented.1).2.mpr (Or.inl presented.2.1)⟩

/-- The same sprite stays on the screen when the machine starts over. -/
theorem frame_ne_picture_of_reset :
    ((new {} (.cycle #[])).performAll
        [.load #[0xD0, 0x01], .step, .takeFrame, .reset]).state.redraw = false ∧
      ((new {} (.cycle #[])).performAll
          [.load #[0xD0, 0x01], .step, .takeFrame, .reset]).state.frame ≠
        (Screen.ofRun {} (.cycle #[])
          [.load #[0xD0, 0x01], .step, .takeFrame, .reset]).picture := by
  have first : #[(0xD0 : UInt8), 0x01][0]? = some 0xD0 := rfl
  have second : #[(0xD0 : UInt8), 0x01][1]? = some 0x01 := rfl
  have presented := presented_of_load {} (.cycle #[]) first second (by decide)
  have stale := stale_of_reset presented.2.2
  simp only [List.cons_append, List.nil_append] at stale
  exact stale

end Machine

end ChipEight
