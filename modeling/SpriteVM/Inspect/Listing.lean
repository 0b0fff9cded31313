import SpriteVM.Machine.Basic

/-!
# Listings

The words in memory from an address on, with the instructions that they would be executed as. A word
that is no instruction is listed too. The listing ends where memory does.
-/

namespace SpriteVM

/-- One word of a listing. -/
structure ListingEntry where
  /-- where the word is -/
  address : Nat
  /-- the word -/
  word : Word
  /-- the instruction of the word, if it has one -/
  instruction? : Option Instruction
  deriving DecidableEq, Repr

namespace ListingEntry

/-- The assembler text of the instruction, or what is shown in its place. -/
def mnemonic (e : ListingEntry) : String :=
  match e.instruction? with
  | some i => i.mnemonic
  | none => "*** Unknown instruction"

/-- Address, word and instruction in one line. -/
def text (e : ListingEntry) : String :=
  addressText e.address ++ " " ++ addressText e.word.toNat ++ " " ++ e.mnemonic

end ListingEntry

/-- The listing of up to `count` words from `start` on. -/
def Memory.listing (memory : Memory) (start : Nat) : Nat → List ListingEntry
  | 0 => []
  | count + 1 =>
    match Word.at? memory.cells.toArray start with
    | none => []
    | some w => ⟨start, w, Instruction.ofWord? w⟩ :: Memory.listing memory (start + wordSize) count

/-- The listing of up to `count` words of the machine's memory. -/
def Machine.listing (m : Machine) (start count : Nat) : List ListingEntry :=
  Memory.listing m.memory start count

end SpriteVM
