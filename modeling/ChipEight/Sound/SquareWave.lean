/-!
# Square wave

The tone of the machine is a square wave in single precision.  The phase runs
through the interval from zero to one and is carried from sample to sample, so
that a buffer goes on where the one before it stopped.
-/

namespace ChipEight

namespace Sound

/-- The exact fractional part of a number, with the sign of the number, also if it is
zero.  Infinities have none. -/
def fractionalPart (value : Float32) : Float32 :=
  let whole := if value < 0 then value.ceil else value.floor
  let signBit := value.toBits &&& 0x80000000
  Float32.ofBits ((value - whole).toBits ||| signBit)

def sampleRate : Nat := 44100

/-- Periods of the tone per second. -/
def pitch : Float32 := 440

def volume : Float32 := 0.2

end Sound

/-- A square wave at some point of its period. -/
structure SquareWave where
  /-- How far the phase moves per sample. -/
  increment : Float32
  phase : Float32
  volume : Float32

namespace SquareWave

/-- The tone of the machine from the start of a period. -/
def tone : SquareWave where
  increment := Sound.pitch / Float32.ofNat Sound.sampleRate
  phase := 0
  volume := Sound.volume

/-- The sample at the current phase, high in the first half of the period. -/
def sample (wave : SquareWave) : Float32 :=
  if wave.phase < 0.5 then wave.volume else -wave.volume

def advance (wave : SquareWave) : SquareWave :=
  { wave with phase := Sound.fractionalPart (wave.phase + wave.increment) }

/-- The next samples, and the wave after them. -/
def fill (wave : SquareWave) : Nat → List Float32 × SquareWave
  | 0 => ([], wave)
  | count + 1 =>
    let (samples, after) := wave.advance.fill count
    (wave.sample :: samples, after)

@[simp]
theorem length_fill (wave : SquareWave) (count : Nat) :
    (wave.fill count).1.length = count := by
  induction count generalizing wave with
  | zero => rfl
  | succ count ih => simp [fill, ih]

/-- Buffers that are filled one after the other join without a seam. -/
theorem fill_add (wave : SquareWave) (first second : Nat) :
    wave.fill (first + second) =
      ((wave.fill first).1 ++ ((wave.fill first).2.fill second).1,
        ((wave.fill first).2.fill second).2) := by
  induction first generalizing wave with
  | zero => simp [fill]
  | succ first ih =>
    rw [Nat.succ_add]
    simp [fill, ih]

end SquareWave

end ChipEight
