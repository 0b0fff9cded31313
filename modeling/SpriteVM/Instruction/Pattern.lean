import SpriteVM.Instruction.Basic

/-!
# Patterns

The pattern of an instruction is the shape of its word in four characters: fixed nibbles as
upper-case hexadecimal digits, and the wildcards `x`, `y`, `n`, `kk` and `nnn` for the nibbles that
hold operands. `operands` lists the operand values in the order of their wildcards.
-/

namespace SpriteVM

/-- The pattern of the skip on a condition. -/
def Condition.pattern : Condition → String
  | .equalByte .. => "3xkk"
  | .unequalByte .. => "4xkk"
  | .equal .. => "5xy0"
  | .unequal .. => "9xy0"
  | .keyDown _ => "Ex9E"
  | .keyUp _ => "ExA1"

/-- The operands of a condition. -/
def Condition.operands : Condition → List Nat
  | .equalByte x kk | .unequalByte x kk => [x, kk.toNat]
  | .equal x y | .unequal x y => [x, y]
  | .keyDown x | .keyUp x => [x]

/-- The pattern of a register-to-register operation. -/
def Alu.pattern : Alu → String
  | .copy => "8xy0"
  | .or => "8xy1"
  | .and => "8xy2"
  | .xor => "8xy3"
  | .add => "8xy4"
  | .sub => "8xy5"
  | .shiftRight => "8xy6"
  | .subFrom => "8xy7"
  | .shiftLeft => "8xyE"

namespace Instruction

/-- The shape of the words of an instruction. -/
def pattern : Instruction → String
  | .sys _ => "0nnn"
  | .clear => "00E0"
  | .ret => "00EE"
  | .jump _ => "1nnn"
  | .call _ => "2nnn"
  | .skip c => c.pattern
  | .loadByte .. => "6xkk"
  | .addByte .. => "7xkk"
  | .combine op _ _ => op.pattern
  | .loadIndex _ => "Annn"
  | .jumpOffset _ => "Bnnn"
  | .random .. => "Cxkk"
  | .draw .. => "Dxyn"
  | .readDelay _ => "Fx07"
  | .waitKey _ => "Fx0A"
  | .setDelay _ => "Fx15"
  | .setSound _ => "Fx18"
  | .addIndex _ => "Fx1E"
  | .loadGlyph _ => "Fx29"
  | .storeDecimal _ => "Fx33"
  | .storeRegisters _ => "Fx55"
  | .loadRegisters _ => "Fx65"

/-- The operand values of an instruction, in the order of their wildcards in its pattern. -/
def operands : Instruction → List Nat
  | .clear | .ret => []
  | .sys nnn | .jump nnn | .call nnn | .loadIndex nnn | .jumpOffset nnn => [nnn]
  | .skip c => c.operands
  | .loadByte x kk | .addByte x kk | .random x kk => [x, kk.toNat]
  | .combine _ x y => [x, y]
  | .draw x y n => [x, y, n]
  | .readDelay x | .waitKey x | .setDelay x | .setSound x | .addIndex x | .loadGlyph x
  | .storeDecimal x | .storeRegisters x | .loadRegisters x => [x]

end Instruction

end SpriteVM
