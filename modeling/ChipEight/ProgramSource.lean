/-!
# Program sources

A program is read from a source that answers each read in one of three ways.
Interrupted reads are tried again, and a read that delivers nothing is the end
of the data.  Reading stops at a limit without asking the source for more.
-/

namespace ChipEight

/-- How a source answers one read. -/
inductive ReadAnswer where
  | delivered (bytes : List UInt8)
  | interrupted
  | failed (cause : String)
  deriving DecidableEq, Repr

/-- The answers that a source gives to successive reads.  After the last of
them it delivers nothing more. -/
abbrev ProgramSource := List ReadAnswer

namespace ProgramSource

/-- What is left of an answer of which only the first bytes were asked for. -/
def putBack (bytes : List UInt8) (source : ProgramSource) : ProgramSource :=
  if bytes.isEmpty then source else .delivered bytes :: source

/-- Read until the data ends, a read fails or `limit` bytes are delivered.
Returns the delivered bytes or the cause of the failure, and the answers that
were not asked for. -/
def collect : Nat → ProgramSource → Except String (List UInt8) × ProgramSource
  | 0, source => (.ok [], source)
  | _ + 1, [] => (.ok [], [])
  | limit + 1, .interrupted :: source => collect (limit + 1) source
  | _ + 1, .failed cause :: source => (.error cause, source)
  | limit + 1, .delivered bytes :: source =>
    if bytes.isEmpty then
      (.ok [], source)
    else if limit < bytes.length then
      (.ok (bytes.take (limit + 1)), putBack (bytes.drop (limit + 1)) source)
    else
      match collect (limit + 1 - bytes.length) source with
      | (.ok more, unread) => (.ok (bytes ++ more), unread)
      | (.error cause, unread) => (.error cause, unread)

end ProgramSource

end ChipEight
