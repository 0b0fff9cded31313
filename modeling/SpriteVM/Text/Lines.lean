/-!
# Lines of a byte stream

A stream is cut after each line feed; what follows the last one, when there is anything, is a line
too. A line is text when its bytes are well-formed UTF-8.
-/

namespace SpriteVM.Lines

/-- The line feed byte. -/
def lineFeed : UInt8 := 0x0A

/-- The lines of a stream, each with the line feed that ends it. -/
def split : List UInt8 → List (List UInt8)
  | [] => []
  | b :: bs =>
    if b = lineFeed then [b] :: split bs
    else match split bs with
      | [] => [[b]]
      | l :: ls => (b :: l) :: ls

/-- Cutting into lines loses nothing. -/
theorem flatten_split (bs : List UInt8) : (split bs).flatten = bs := by
  induction bs with
  | nil => rfl
  | cons b bs ih =>
    rw [split]
    split
    · simp [ih]
    · split <;> simp_all

/-- The text of a line, `none` when its bytes are not UTF-8. -/
def text? (line : List UInt8) : Option String :=
  String.fromUTF8? line.toByteArray

/-- The lines of a stream as text, `none` in place of one that is not UTF-8. -/
def ofBytes (bytes : List UInt8) : List (Option String) :=
  (split bytes).map text?

end SpriteVM.Lines
