/-!
# Instruction words

An instruction is one 16-bit word, stored with its high byte first. Its four nibbles are read in
overlapping fields: the leading nibble names the family, and below it stand two register numbers
`x` and `y`, a nibble `n`, a byte `kk` or a 12-bit address `nnn`.
-/

namespace SpriteVM

/-- A 16-bit instruction word. -/
abbrev Word := UInt16

namespace Word

/-- The word of two bytes, the high one first. -/
def ofBytes (high low : UInt8) : Word :=
  UInt16.ofNat (high.toNat * 0x100 + low.toNat)

/-- The leading nibble, which names the family of the instruction. -/
def family (w : Word) : Nat :=
  w.toNat / 0x1000

/-- The second nibble, a register number. -/
def x (w : Word) : Nat :=
  w.toNat / 0x100 % 0x10

/-- The third nibble, a register number. -/
def y (w : Word) : Nat :=
  w.toNat / 0x10 % 0x10

/-- The last nibble. -/
def n (w : Word) : Nat :=
  w.toNat % 0x10

/-- The last byte. -/
def kk (w : Word) : UInt8 :=
  UInt8.ofNat (w.toNat % 0x100)

/-- The last three nibbles, an address. -/
def nnn (w : Word) : Nat :=
  w.toNat % 0x1000

/-- The word at a position of a byte sequence, when both of its bytes are there. -/
def at? (bytes : Array UInt8) (position : Nat) : Option Word := do
  let high ← bytes[position]?
  let low ← bytes[position + 1]?
  return ofBytes high low

/-! ## Fields as parts of the word -/

/-- The four nibbles make up the word. -/
theorem toNat_eq (w : Word) : w.toNat = w.family * 0x1000 + w.x * 0x100 + w.y * 0x10 + w.n := by
  have := w.toNat_lt
  simp only [family, x, y, n]
  omega

theorem nnn_eq (w : Word) : w.nnn = w.x * 0x100 + w.y * 0x10 + w.n := by
  simp only [nnn, x, y, n]
  omega

theorem toNat_kk (w : Word) : w.kk.toNat = w.y * 0x10 + w.n := by
  simp [kk, y, n]
  omega

/-- Both bytes of a word can be read off it. -/
theorem toNat_ofBytes (high low : UInt8) :
    (ofBytes high low).toNat = high.toNat * 0x100 + low.toNat := by
  have := high.toNat_lt
  have := low.toNat_lt
  simp [ofBytes]
  omega

end Word

end SpriteVM
