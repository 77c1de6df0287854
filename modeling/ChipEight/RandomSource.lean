/-!
# Random source

Random numbers come from an infinite sequence of 32-bit words together with the
number of words already drawn.  The next byte can be looked at without drawing
its word, so that an instruction which does not use it leaves the source alone.
-/

namespace ChipEight

/-- A sequence of random words and the number of words drawn from it. -/
structure RandomSource where
  words : Nat → UInt32
  drawn : Nat := 0

namespace RandomSource

/-- The source that repeats the given words for ever.  Without words it yields
zeros. -/
def cycle (words : Array UInt32) : RandomSource where
  words position := words.getD (position % words.size) 0

/-- A source that scrambles successive positions, different for every seed. -/
def ofSeed (seed : UInt32) : RandomSource where
  words position :=
    let mixed := (seed + UInt32.ofNat position * 0x9E3779B9)
    let mixed := (mixed ^^^ (mixed >>> 16)) * 0x85EBCA6B
    let mixed := (mixed ^^^ (mixed >>> 13)) * 0xC2B2AE35
    mixed ^^^ (mixed >>> 16)

/-- The low byte of the word that is drawn next. -/
def byte (source : RandomSource) : UInt8 :=
  (source.words source.drawn).toUInt8

def advance (source : RandomSource) : RandomSource :=
  { source with drawn := source.drawn + 1 }

end RandomSource

end ChipEight
