/-!
# Glyphs

The built-in pictures of the sixteen hexadecimal digits. Each is five rows high and uses the left
four pixels of a row. They lie one after the other in low memory.
-/

namespace SpriteVM.Glyph

/-- The address of the glyph of zero. -/
def location : Nat := 0x50

/-- The number of rows, and so of bytes, of a glyph. -/
def height : Nat := 5

/-- The number of glyphs. -/
def count : Nat := 16

/-- The rows of all glyphs, from zero to `F`. -/
def rows : List UInt8 :=
  [0xF0, 0x90, 0x90, 0x90, 0xF0,
   0x20, 0x60, 0x20, 0x20, 0x70,
   0xF0, 0x10, 0xF0, 0x80, 0xF0,
   0xF0, 0x10, 0xF0, 0x10, 0xF0,
   0x90, 0x90, 0xF0, 0x10, 0x10,
   0xF0, 0x80, 0xF0, 0x10, 0xF0,
   0xF0, 0x80, 0xF0, 0x90, 0xF0,
   0xF0, 0x10, 0x20, 0x40, 0x40,
   0xF0, 0x90, 0xF0, 0x90, 0xF0,
   0xF0, 0x90, 0xF0, 0x10, 0xF0,
   0xF0, 0x90, 0xF0, 0x90, 0x90,
   0xE0, 0x90, 0xE0, 0x90, 0xE0,
   0xF0, 0x80, 0x80, 0x80, 0xF0,
   0xE0, 0x90, 0x90, 0x90, 0xE0,
   0xF0, 0x80, 0xF0, 0x80, 0xF0,
   0xF0, 0x80, 0xF0, 0x80, 0x80]

end SpriteVM.Glyph
