import SpriteVM.Word

/-!
# Instructions

The instruction set, with the operands an instruction carries. The conditional skips share one
constructor over a `Condition`, and the register-to-register operations of family 8 share one over
an `Alu` operation, so that a rule about all skips or all arithmetic is said once.

Register numbers are `x` and `y`, `kk` is an immediate byte, `n` a count of rows and `nnn` an
address. Operands are plain numbers: words only carry small ones, but an instruction may be put
together by hand.
-/

namespace SpriteVM

/-- What a conditional skip asks. -/
inductive Condition where
  /-- `Vx` holds the byte -/
  | equalByte (x : Nat) (kk : UInt8)
  /-- `Vx` does not hold the byte -/
  | unequalByte (x : Nat) (kk : UInt8)
  /-- `Vx` and `Vy` hold the same byte -/
  | equal (x y : Nat)
  /-- `Vx` and `Vy` hold different bytes -/
  | unequal (x y : Nat)
  /-- the key that `Vx` names is down -/
  | keyDown (x : Nat)
  /-- the key that `Vx` names is not down -/
  | keyUp (x : Nat)
  deriving DecidableEq, Repr

/-- What is computed from `Vx` and `Vy` and put into `Vx`. -/
inductive Alu where
  /-- `Vy` -/
  | copy
  /-- `Vx` or `Vy`, bit by bit -/
  | or
  /-- `Vx` and `Vy`, bit by bit -/
  | and
  /-- `Vx` exclusive-or `Vy`, bit by bit -/
  | xor
  /-- `Vx + Vy`, with the carry as flag -/
  | add
  /-- `Vx - Vy`, flagged when nothing is borrowed -/
  | sub
  /-- `Vx` shifted right, with the bit shifted out as flag -/
  | shiftRight
  /-- `Vy - Vx`, flagged when nothing is borrowed -/
  | subFrom
  /-- `Vx` shifted left, with the bit shifted out as flag -/
  | shiftLeft
  deriving DecidableEq, Repr

/-- A single instruction with its operands. -/
inductive Instruction where
  /-- call a native routine; there are none, so nothing happens -/
  | sys (nnn : Nat)
  /-- unlight every pixel -/
  | clear
  /-- go back to the latest return address -/
  | ret
  /-- go to `nnn` -/
  | jump (nnn : Nat)
  /-- go to `nnn` and remember where to return to -/
  | call (nnn : Nat)
  /-- go to `nnn + V0` -/
  | jumpOffset (nnn : Nat)
  /-- pass over the following instruction when the condition holds -/
  | skip (c : Condition)
  /-- put `kk` into `Vx` -/
  | loadByte (x : Nat) (kk : UInt8)
  /-- add `kk` to `Vx`, without a flag -/
  | addByte (x : Nat) (kk : UInt8)
  /-- put a random byte, masked with `kk`, into `Vx` -/
  | random (x : Nat) (kk : UInt8)
  /-- combine `Vx` with `Vy` -/
  | combine (op : Alu) (x y : Nat)
  /-- put `nnn` into the index register -/
  | loadIndex (nnn : Nat)
  /-- add `Vx` to the index register -/
  | addIndex (x : Nat)
  /-- point the index register at the glyph of the digit in `Vx` -/
  | loadGlyph (x : Nat)
  /-- draw `n` rows of the sprite at the index register to `(Vx, Vy)` -/
  | draw (x y n : Nat)
  /-- put the delay timer into `Vx` -/
  | readDelay (x : Nat)
  /-- wait for a key and put it into `Vx` -/
  | waitKey (x : Nat)
  /-- put `Vx` into the delay timer -/
  | setDelay (x : Nat)
  /-- put `Vx` into the sound timer -/
  | setSound (x : Nat)
  /-- store the three decimal digits of `Vx` at the index register -/
  | storeDecimal (x : Nat)
  /-- store `V0` to `Vx` at the index register -/
  | storeRegisters (x : Nat)
  /-- load `V0` to `Vx` from the index register -/
  | loadRegisters (x : Nat)
  deriving DecidableEq, Repr

end SpriteVM
