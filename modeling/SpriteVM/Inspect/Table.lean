import SpriteVM.Machine.Basic
import SpriteVM.Text.Blank
import SpriteVM.Text.Layout

/-!
# Tables

Numbered entries in rows, each row led by the range of numbers that it covers. In the table of the
memory, which shows words, all rows of zeros that follow each other are one row.
-/

namespace SpriteVM.Table

open Numeral

/-- What stands in front of every row. -/
def indent : String := "\t\t"

/-- The number of entries in a row. -/
def rowSize : Nat := 8

/-- The range of numbers that a row covers, both ends included. -/
def rangeText (first last : Nat) : String :=
  addressText first ++ " - " ++ addressText last ++ " :"

/-- A row of entries, the first of which has the number `first`. -/
def rowText (first : Nat) (entries : List String) : String :=
  indent ++ rangeText first (first + entries.length - 1)
    ++ String.join (entries.map fun e => " " ++ e)

/-- The rows of a table, the first of which begins with number `first`. -/
def rowTexts (first : Nat) : List (List String) → List String
  | [] => []
  | entries :: rest => rowText first entries :: rowTexts (first + entries.length) rest

/-- A table of numbers with four hexadecimal digits each. -/
def ofNumbers (ns : List Nat) : String :=
  Layout.stack (rowTexts 0 (Layout.rows rowSize (ns.map addressText)))

/-- The width of an entry. -/
def entryWidth : Nat := 6

/-- A truth value as an entry. -/
def boolText (b : Bool) : String :=
  Layout.padRight entryWidth (if b then "true" else "false")

/-- A table of truth values. The last entry of a row is not followed by blanks. -/
def ofBools (bs : List Bool) : String :=
  Layout.stack ((rowTexts 0 (Layout.rows rowSize (bs.map boolText))).map fun row =>
    String.ofList (Blank.trimEnd row.toList))

/-! ## Memory -/

/-- A row of the table of the memory. -/
inductive MemoryRow where
  /-- the words between `first` and `last` are all zero -/
  | zeros (first last : Nat)
  /-- bytes from `first` on, with a word that is not zero -/
  | bytes (first : Nat) (contents : List UInt8)
  deriving DecidableEq, Repr

/-- The number of bytes in a row that is not merged. -/
def bytesPerRow : Nat := rowSize * wordSize

/-- The words of a list of bytes; a single byte at the end is no word. -/
def wordsOf : List UInt8 → List Word
  | high :: low :: rest => Word.ofBytes high low :: wordsOf rest
  | _ => []

/-- The words that a row shows: those of its bytes, and zeros in the free places. -/
def rowWords (block : List UInt8) : List Word :=
  wordsOf block ++ List.replicate (rowSize - (wordsOf block).length) 0

/-- Whether a row shows nothing but zeros. -/
def isNull (block : List UInt8) : Bool :=
  (rowWords block).all (· == 0)

/-- The rows over blocks of bytes, the first of which begins at `first`. A block of zeros joins the
row of zeros that follows it. -/
def memoryRows (first : Nat) : List (List UInt8) → List MemoryRow
  | [] => []
  | block :: rest =>
    let next := first + block.length
    let rows := memoryRows next rest
    if isNull block then
      match rows with
      | .zeros _ last :: rows => .zeros first last :: rows
      | rows => .zeros first (next - 1) :: rows
    else .bytes first block :: rows

/-- The entries in place of the words of a merged row, as wide as they would be. -/
def zeroFiller : String :=
  let zero := addressText 0
  let gap := String.ofList (List.replicate 20 ' ')
  zero ++ gap ++ "..." ++ gap ++ zero

/-- A row of the table of the memory as text. -/
def MemoryRow.text : MemoryRow → String
  | .zeros first last => indent ++ rangeText first last ++ " " ++ zeroFiller
  | .bytes first contents =>
    indent ++ rangeText first (first + contents.length - 1)
      ++ String.join ((rowWords contents).map fun w => " " ++ addressText w.toNat)

/-- The table of a memory. -/
def ofMemory (bytes : List UInt8) : String :=
  Layout.stack ((memoryRows 0 (Layout.rows bytesPerRow bytes)).map MemoryRow.text)

end SpriteVM.Table
