import SpriteVM.Instruction.Basic
import SpriteVM.Text.Numeral

/-!
# Mnemonics

Instructions in assembler syntax, such as `LD V1, 0x2A`. Registers are written with their number
in hexadecimal, bytes with two hexadecimal digits, addresses with at least four, and the row count
of a sprite in decimal. The shifts show only the register that they shift.
-/

namespace SpriteVM

open Numeral

/-- The name of a register. -/
def registerName (x : Nat) : String :=
  "V" ++ hexDigits 1 x

/-- An immediate byte. -/
def byteText (b : UInt8) : String :=
  hex 2 b.toNat

/-- An address, or any other number shown with four digits. -/
def addressText (a : Nat) : String :=
  hex 4 a

/-- The operation name in front of two operands. -/
def twoOperands (name first second : String) : String :=
  name ++ " " ++ first ++ ", " ++ second

/-- The skip on a condition in assembler syntax. -/
def Condition.mnemonic : Condition → String
  | .equalByte x kk => twoOperands "SE" (registerName x) (byteText kk)
  | .unequalByte x kk => twoOperands "SNE" (registerName x) (byteText kk)
  | .equal x y => twoOperands "SE" (registerName x) (registerName y)
  | .unequal x y => twoOperands "SNE" (registerName x) (registerName y)
  | .keyDown x => "SKP " ++ registerName x
  | .keyUp x => "SKNP " ++ registerName x

/-- A register-to-register operation in assembler syntax. -/
def Alu.mnemonic (op : Alu) (x y : Nat) : String :=
  match op with
  | .copy => twoOperands "LD" (registerName x) (registerName y)
  | .or => twoOperands "OR" (registerName x) (registerName y)
  | .and => twoOperands "AND" (registerName x) (registerName y)
  | .xor => twoOperands "XOR" (registerName x) (registerName y)
  | .add => twoOperands "ADD" (registerName x) (registerName y)
  | .sub => twoOperands "SUB" (registerName x) (registerName y)
  | .subFrom => twoOperands "SUBN" (registerName x) (registerName y)
  | .shiftRight => "SHR " ++ registerName x
  | .shiftLeft => "SHL " ++ registerName x

/-- An instruction in assembler syntax. -/
def Instruction.mnemonic : Instruction → String
  | .sys nnn => "SYS " ++ addressText nnn
  | .clear => "CLS"
  | .ret => "RET"
  | .jump nnn => "JP " ++ addressText nnn
  | .call nnn => "CALL " ++ addressText nnn
  | .jumpOffset nnn => twoOperands "JP" "V0" (addressText nnn)
  | .skip c => c.mnemonic
  | .loadByte x kk => twoOperands "LD" (registerName x) (byteText kk)
  | .addByte x kk => twoOperands "ADD" (registerName x) (byteText kk)
  | .random x kk => twoOperands "RND" (registerName x) (byteText kk)
  | .combine op x y => op.mnemonic x y
  | .loadIndex nnn => twoOperands "LD" "I" (addressText nnn)
  | .addIndex x => twoOperands "ADD" "I" (registerName x)
  | .loadGlyph x => twoOperands "LD" "F" (registerName x)
  | .draw x y n =>
    twoOperands "DRW" (registerName x) (registerName y) ++ ", " ++ decimal n
  | .readDelay x => twoOperands "LD" (registerName x) "DT"
  | .waitKey x => twoOperands "LD" (registerName x) "K"
  | .setDelay x => twoOperands "LD" "DT" (registerName x)
  | .setSound x => twoOperands "LD" "ST" (registerName x)
  | .storeDecimal x => twoOperands "LD" "B" (registerName x)
  | .storeRegisters x => twoOperands "LD" "[I]" (registerName x)
  | .loadRegisters x => twoOperands "LD" (registerName x) "[I]"

end SpriteVM
