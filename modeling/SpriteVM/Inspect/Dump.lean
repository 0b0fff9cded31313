import SpriteVM.Machine.Basic
import SpriteVM.Text.Layout

/-!
# Dumps

The bytes of a range of memory in hexadecimal, sixteen on a line, each line led by the address of its
first byte. A range is cut off at the end of memory.
-/

namespace SpriteVM.Dump

open Numeral

/-- The number of bytes on a line. -/
def lineSize : Nat := 16

/-- One line of a dump. -/
def lineText (address : Nat) (bytes : List UInt8) : String :=
  addressText address ++ " :" ++ String.join (bytes.map fun b => " " ++ hexDigits 2 b.toNat)

/-- The lines of a dump, the first of which begins at `address`. -/
def lines (address : Nat) : List (List UInt8) → List String
  | [] => []
  | bytes :: rest => lineText address bytes :: lines (address + lineSize) rest

/-- Where a range begins, at the latest at the end of memory. -/
def lower (start : Nat) : Nat :=
  min start memorySize

/-- Where a range ends. The sum saturates at the largest machine word before it is cut off. -/
def upper (start count : Nat) : Nat :=
  min (min (lower start + count) (wordLimit - 1)) memorySize

/-- The bytes in a range of memory, as far as they exist. -/
def bytes (memory : Memory) (start count : Nat) : List UInt8 :=
  memory.block (lower start) (upper start count - lower start)

/-- The dump of `count` bytes from `start` on. -/
def text (memory : Memory) (start count : Nat) : String :=
  Layout.stack (lines (lower start) (Layout.rows lineSize (bytes memory start count)))

end SpriteVM.Dump
