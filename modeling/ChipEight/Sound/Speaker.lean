/-!
# Speaker

A speaker is told again and again whether the tone should sound, and passes on
only the changes.  Without an audio device it passes on nothing.
-/

namespace ChipEight

inductive ToneSignal where
  | resume
  | pause
  deriving DecidableEq, Repr

/-- A speaker with what it last told its device. -/
inductive Speaker where
  /-- There is no device. -/
  | silent
  /-- The device plays the tone, or is paused. -/
  | tone (playing : Bool)
  deriving DecidableEq, Repr

namespace Speaker

/-- Start or stop the tone.  Returns the speaker and what the device is
told. -/
def setActive (active : Bool) : Speaker → Speaker × List ToneSignal
  | silent => (silent, [])
  | tone playing =>
    if active = playing then
      (tone playing, [])
    else
      (tone active, [if active then .resume else .pause])

/-- Setting the same value twice tells the device nothing more. -/
theorem setActive_setActive (active : Bool) (speaker : Speaker) :
    (speaker.setActive active).1.setActive active = ((speaker.setActive active).1, []) := by
  cases speaker with
  | silent => rfl
  | tone playing => cases active <;> cases playing <;> rfl

end Speaker

end ChipEight
