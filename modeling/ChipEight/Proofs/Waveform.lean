import ChipEight.Sound.SquareWave
import Mathlib.Algebra.GroupWithZero.Nat

/-!
# Sound without seams

An audio device asks for its samples buffer by buffer, with buffers of any
length.  The phase is carried from sample to sample and from buffer to buffer, so
that where the buffers are cut cannot be heard.  No law of the arithmetic on
phases is needed for this.
-/

namespace ChipEight

namespace SquareWave

/-- The phase of the sample at a position, counted from the next sample. -/
def runningPhase (wave : SquareWave) : Nat → Float32
  | 0 => wave.phase
  | position + 1 => Sound.fractionalPart (wave.runningPhase position + wave.increment)

theorem runningPhase_advance (wave : SquareWave) (position : Nat) :
    wave.advance.runningPhase position = wave.runningPhase (position + 1) := by
  induction position with
  | zero => rfl
  | succ position ih =>
      rw [runningPhase, ih]
      rfl

theorem snd_fill (wave : SquareWave) (count : Nat) :
    (wave.fill count).2 = { wave with phase := wave.runningPhase count } := by
  induction count generalizing wave with
  | zero => rfl
  | succ count ih =>
      rw [fill, ih, runningPhase_advance]
      rfl

theorem fst_fill (wave : SquareWave) (count : Nat) :
    (wave.fill count).1 = (List.range count).map fun position =>
      if wave.runningPhase position < 0.5 then wave.volume else -wave.volume := by
  induction count generalizing wave with
  | zero => rfl
  | succ count ih =>
      have first : (wave.fill (count + 1)).1 = wave.sample :: (wave.advance.fill count).1 := rfl
      rw [first, ih, List.range_succ_eq_map, List.map_cons, List.map_map]
      simp only [runningPhase_advance]
      rfl

/-- Fill buffers of the given lengths one after the other. -/
def fillAll (wave : SquareWave) : List Nat → List (List Float32) × SquareWave
  | [] => ([], wave)
  | length :: lengths =>
    let (samples, after) := wave.fill length
    let (buffers, last) := after.fillAll lengths
    (samples :: buffers, last)

theorem map_length_fillAll (wave : SquareWave) (lengths : List Nat) :
    (wave.fillAll lengths).1.map List.length = lengths := by
  induction lengths generalizing wave with
  | nil => rfl
  | cons length lengths ih => simp only [fillAll, List.map_cons, length_fill, ih]

/-- Joined, the buffers hold what one buffer would hold, and they leave the same
wave. -/
theorem fill_sum (wave : SquareWave) (lengths : List Nat) :
    wave.fill lengths.sum = ((wave.fillAll lengths).1.flatten, (wave.fillAll lengths).2) := by
  induction lengths generalizing wave with
  | nil => rfl
  | cons length lengths ih =>
      rw [List.sum_cons, fill_add, ih]
      rfl

/-- Overwrite one place of a buffer and go on to the next sample. -/
def overwriteAt (progress : Array Float32 × SquareWave) (place : Nat) :
    Array Float32 × SquareWave :=
  (progress.1.setIfInBounds place progress.2.sample, progress.2.advance)

/-- Overwrite a buffer place by place. -/
def overwrite (wave : SquareWave) (buffer : Array Float32) : Array Float32 × SquareWave :=
  (List.range buffer.size).foldl overwriteAt (buffer, wave)

def overwriteAll (wave : SquareWave) :
    List (Array Float32) → List (Array Float32) × SquareWave
  | [] => ([], wave)
  | buffer :: buffers =>
    let (overwritten, after) := wave.overwrite buffer
    let (others, last) := after.overwriteAll buffers
    (overwritten :: others, last)

theorem fill_succ (wave : SquareWave) (count : Nat) :
    wave.fill (count + 1) =
      ((wave.fill count).1 ++ [(wave.fill count).2.sample], (wave.fill count).2.advance) := by
  rw [fill_add]
  rfl

/-- After some places, the buffer starts with the samples and still ends with what
it held before. -/
theorem foldl_overwriteAt (wave : SquareWave) (buffer : Array Float32) {count : Nat}
    (inside : count ≤ buffer.size) :
    (List.range count).foldl overwriteAt (buffer, wave) =
      (((wave.fill count).1 ++ buffer.toList.drop count).toArray, (wave.fill count).2) := by
  induction count with
  | zero => simp [fill]
  | succ count ih =>
      have place : count < buffer.toList.length := by
        rw [Array.length_toList]
        omega
      rw [List.range_succ, List.foldl_append, ih (Nat.le_of_succ_le inside), fill_succ,
        List.drop_eq_getElem_cons place]
      simp [overwriteAt]

theorem overwrite_eq (wave : SquareWave) (buffer : Array Float32) :
    wave.overwrite buffer = ((wave.fill buffer.size).1.toArray, (wave.fill buffer.size).2) := by
  have nothingLeft : buffer.toList.drop buffer.size = [] := by
    rw [← Array.length_toList, List.drop_length]
  rw [overwrite, foldl_overwriteAt wave buffer (Nat.le_refl _), nothingLeft, List.append_nil]

theorem overwriteAll_eq (wave : SquareWave) (buffers : List (Array Float32)) :
    wave.overwriteAll buffers =
      ((wave.fillAll (buffers.map Array.size)).1.map List.toArray,
        (wave.fillAll (buffers.map Array.size)).2) := by
  induction buffers generalizing wave with
  | nil => rfl
  | cons buffer buffers ih => simp only [overwriteAll, overwrite_eq, ih, List.map_cons, fillAll]

/-- Buffers that are filled one after the other, in place as well, hold what a single buffer
as long as all of them would hold, and leave the same wave. -/
theorem fillAll_seamless (wave : SquareWave) (lengths : List Nat) :
    let filled := wave.fillAll lengths
    let whole := wave.fill lengths.sum
    filled.1.map List.length = lengths ∧
      filled.1.flatten = whole.1 ∧
      filled.2 = whole.2 ∧
      (whole.1 = (List.range lengths.sum).map fun position =>
        if wave.runningPhase position < 0.5 then wave.volume else -wave.volume) ∧
      (∀ sample ∈ whole.1, sample = wave.volume ∨ sample = -wave.volume) ∧
      whole.2 = { wave with phase := wave.runningPhase lengths.sum } ∧
      (∀ places : List (Array Float32), places.map Array.size = lengths →
        wave.overwriteAll places = (filled.1.map List.toArray, filled.2)) ∧
      ∀ place : Array Float32, place.size = lengths.sum →
        wave.overwrite place = (whole.1.toArray, whole.2) := by
  intro filled whole
  have joined : whole = (filled.1.flatten, filled.2) := wave.fill_sum lengths
  have samples := wave.fst_fill lengths.sum
  refine ⟨wave.map_length_fillAll lengths, ?_, ?_, samples, ?_, wave.snd_fill _, ?_, ?_⟩
  · rw [joined]
  · rw [joined]
  · intro sample member
    obtain ⟨position, -, rfl⟩ := List.mem_map.mp (samples ▸ member)
    split
    · exact Or.inl rfl
    · exact Or.inr rfl
  · intro places sizes
    rw [overwriteAll_eq, sizes]
  · intro place size
    rw [overwrite_eq, size]

/-- The tone of the machine is written over three buffers, one of them empty, as it
is written over one. -/
theorem fillAll_seamless_tone :
    let places : List (Array Float32) := [#[1, 1], #[], #[1]]
    let place : Array Float32 := #[0, 0, 0]
    places.map Array.size = [2, 0, 1] ∧ place.size = [2, 0, 1].sum ∧
      ((SquareWave.tone.overwriteAll places).1.map Array.toList).flatten =
        (SquareWave.tone.overwrite place).1.toList ∧
      (SquareWave.tone.overwriteAll places).2 = (SquareWave.tone.overwrite place).2 := by
  intro places place
  have sizes : places.map Array.size = [2, 0, 1] := rfl
  have size : place.size = [2, 0, 1].sum := rfl
  obtain ⟨-, flatten, left, -, -, -, many, one⟩ := fillAll_seamless .tone [2, 0, 1]
  refine ⟨sizes, size, ?_, ?_⟩
  · rw [many places sizes, one place size, ← flatten]
    simp [Function.comp_def]
  · rw [many places sizes, one place size, left]

end SquareWave

end ChipEight
