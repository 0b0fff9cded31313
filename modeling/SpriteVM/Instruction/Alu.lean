import SpriteVM.Instruction.Basic

/-!
# Arithmetic

What the register-to-register operations compute from the contents `a` of `Vx` and `b` of `Vy`: the
new content of `Vx`, and for some of them a flag. Bytes wrap around at 256.
-/

namespace SpriteVM.Alu

/-- Whether the operation looks at `Vy`; the shifts do not. -/
def readsSecond : Alu → Bool
  | .shiftRight | .shiftLeft => false
  | _ => true

/-- The new content of `Vx`. -/
def result (op : Alu) (a b : UInt8) : UInt8 :=
  match op with
  | .copy => b
  | .or => a ||| b
  | .and => a &&& b
  | .xor => a ^^^ b
  | .add => a + b
  | .sub => a - b
  | .shiftRight => a >>> 1
  | .subFrom => b - a
  | .shiftLeft => a <<< 1

/-- A flag as the content of a register. -/
def flagByte (condition : Bool) : UInt8 :=
  if condition then 1 else 0

/-- The flag that the operation sets, if it sets one. -/
def flag? (op : Alu) (a b : UInt8) : Option UInt8 :=
  match op with
  | .copy | .or | .and | .xor => none
  | .add => some (flagByte (256 ≤ a.toNat + b.toNat))
  | .sub => some (flagByte (b ≤ a))
  | .subFrom => some (flagByte (a ≤ b))
  | .shiftRight => some (a &&& 1)
  | .shiftLeft => some (a >>> 7)

end SpriteVM.Alu
