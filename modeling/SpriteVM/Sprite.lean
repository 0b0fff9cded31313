/-!
# Sprites

A sprite is a list of rows of eight pixels, one byte for each row with the leftmost pixel in the
highest bit.
-/

namespace SpriteVM.Sprite

/-- The number of pixels in a row. -/
def width : Nat := 8

/-- Whether a row has a pixel in a column, counted from the left. -/
def hasPixel (row : UInt8) (column : Nat) : Bool :=
  row.toNat.testBit (width - 1 - column)

end SpriteVM.Sprite
