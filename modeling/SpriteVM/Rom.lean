/-!
# ROMs

A program as it is delivered: a name and the bytes that go into memory unchanged.
-/

namespace SpriteVM

/-- A program with its name. -/
structure Rom where
  /-- what the program is called -/
  name : String
  /-- the bytes of the program -/
  data : List UInt8
  deriving DecidableEq, Repr

/-- The number of bytes of a program. -/
def Rom.size (r : Rom) : Nat :=
  r.data.length

end SpriteVM
