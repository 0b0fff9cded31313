import SpriteVM.File.Tree
import SpriteVM.Message
import SpriteVM.Rom

/-!
# ROM files

A file holds the bytes of a program and nothing else. The program is called after the file, without
the extension: the last name of the path up to its last dot. A dot in front belongs to the name.
-/

namespace SpriteVM

/-- A file name without its extension. -/
def stem (name : List Char) : List Char :=
  let beforeDot := (name.reverse.dropWhile (· ≠ '.')).drop 1
  if beforeDot.isEmpty then name else beforeDot.reverse

namespace Rom

/-- What the program in the file at the end of a path is called. -/
def nameOfPath (path : String) : String :=
  match (properNames path).getLast? with
  | some name => String.ofList (stem name.toList)
  | none => ""

/-- The program in the file at the end of a path. -/
def ofFile (path : String) (contents : List UInt8) : Rom where
  name := nameOfPath path
  data := contents

/-- Reads a program. -/
def read (t : FileTree) (path : String) : Except ReadError Rom :=
  (t.read path).map (ofFile path)

/-- The log of reading a program. -/
def readLog : Except ReadError Rom → List Message
  | .ok rom => [.romRead rom.name rom.size]
  | .error _ => []

end Rom

end SpriteVM
