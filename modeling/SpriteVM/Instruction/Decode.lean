import SpriteVM.Instruction.Basic

/-!
# Decoding

`Instruction.ofWord?` reads the instruction of a word. The family nibble selects a layout, and
within families 0, 5, 8, 9, E and F the remaining fixed nibbles decide further. A word whose fixed
nibbles fit no instruction has none.
-/

namespace SpriteVM

/-- The operation that the last nibble of a family 8 word selects. -/
def Alu.ofNibble? : Nat → Option Alu
  | 0x0 => some .copy
  | 0x1 => some .or
  | 0x2 => some .and
  | 0x3 => some .xor
  | 0x4 => some .add
  | 0x5 => some .sub
  | 0x6 => some .shiftRight
  | 0x7 => some .subFrom
  | 0xE => some .shiftLeft
  | _ => none

namespace Instruction

/-- The key test that the last byte of a family E word selects. -/
def keyTest? (x : Nat) : Nat → Option Instruction
  | 0x9E => some (.skip (.keyDown x))
  | 0xA1 => some (.skip (.keyUp x))
  | _ => none

/-- The transfer between `Vx` and a device, the index register or memory that the last byte of a
family F word selects. -/
def transfer? (x : Nat) : Nat → Option Instruction
  | 0x07 => some (.readDelay x)
  | 0x0A => some (.waitKey x)
  | 0x15 => some (.setDelay x)
  | 0x18 => some (.setSound x)
  | 0x1E => some (.addIndex x)
  | 0x29 => some (.loadGlyph x)
  | 0x33 => some (.storeDecimal x)
  | 0x55 => some (.storeRegisters x)
  | 0x65 => some (.loadRegisters x)
  | _ => none

/-- The instruction of a word. Of the words of family 0 two have a meaning of their own; all others
call a native routine. -/
def ofWord? (w : Word) : Option Instruction :=
  match w.family with
  | 0x0 =>
    some (if w.nnn = 0x0E0 then .clear else if w.nnn = 0x0EE then .ret else .sys w.nnn)
  | 0x1 => some (.jump w.nnn)
  | 0x2 => some (.call w.nnn)
  | 0x3 => some (.skip (.equalByte w.x w.kk))
  | 0x4 => some (.skip (.unequalByte w.x w.kk))
  | 0x5 => if w.n = 0 then some (.skip (.equal w.x w.y)) else none
  | 0x6 => some (.loadByte w.x w.kk)
  | 0x7 => some (.addByte w.x w.kk)
  | 0x8 => (Alu.ofNibble? w.n).map fun op => .combine op w.x w.y
  | 0x9 => if w.n = 0 then some (.skip (.unequal w.x w.y)) else none
  | 0xA => some (.loadIndex w.nnn)
  | 0xB => some (.jumpOffset w.nnn)
  | 0xC => some (.random w.x w.kk)
  | 0xD => some (.draw w.x w.y w.n)
  | 0xE => keyTest? w.x w.kk.toNat
  | 0xF => transfer? w.x w.kk.toNat
  | _ => none

end Instruction

end SpriteVM
