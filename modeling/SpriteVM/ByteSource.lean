/-!
# Sources of random bytes

A source is an endless stream of bytes together with the number of bytes taken from it, so that two
sources can be compared by what they still have to give.
-/

namespace SpriteVM

/-- An endless stream of bytes and a position in it. -/
structure ByteSource where
  /-- the bytes of the stream -/
  stream : Nat → UInt8
  /-- how many of them are used up -/
  taken : Nat := 0

namespace ByteSource

/-- The next byte. -/
def peek (s : ByteSource) : UInt8 :=
  s.stream s.taken

/-- The source after its next byte. -/
def advance (s : ByteSource) : ByteSource :=
  { s with taken := s.taken + 1 }

/-- The source that gives the same bytes over and over, or zeros when there are none. -/
def cycle (bytes : Array UInt8) : ByteSource where
  stream k := bytes[k % bytes.size]?.getD 0

end ByteSource

end SpriteVM
