import SpriteVM.Proofs.MemoryTable
import SpriteVM.Proofs.Numbers

/-!
# Reading the table of the memory

A line of the table names a range of addresses, and shows either the words in this range or filler.
`MemoryLine.read?` finds these in the text of a line, as words between blanks, and `readTable?`
finds the lines of a table. Whatever lines are written, they are read back (`readTable?_stack`).
-/

namespace SpriteVM.Table

open Numeral

/-! ## Lines -/

/-- A line of the table of the memory. -/
structure MemoryLine where
  /-- where its range begins -/
  first : Nat
  /-- where its range ends -/
  last : Nat
  /-- its words, unless there is filler in their place -/
  words? : Option (List Word)
  deriving DecidableEq, Repr

namespace MemoryLine

/-- The words of a line as they are printed, or filler. -/
def columns (line : MemoryLine) : String :=
  match line.words? with
  | some words => String.join (words.map wordEntry)
  | none => " 0x0000                    ...                    0x0000"

/-- A line as it is printed. -/
def text (line : MemoryLine) : String :=
  "\t\t" ++ addressText line.first ++ " - " ++ addressText line.last ++ " :" ++ line.columns

/-- The bytes that a line stands for. -/
def expand (line : MemoryLine) : List UInt8 :=
  match line.words? with
  | some words => words.flatMap Word.bytes
  | none => List.replicate (line.last + 1 - line.first) 0

/-! ## Reading lines -/

/-- The number of a word with a prefix. -/
def number? : List Char → Option Nat
  | '0' :: 'x' :: digits => unsigned? 16 digits
  | _ => none

/-- The word of memory that a word stands for. -/
def word? (entry : List Char) : Option Word :=
  ((number? entry).filter (· < 0x10000)).map UInt16.ofNat

/-- The words of filler. -/
def filler : List (List Char) :=
  ["0x0000".toList, "...".toList, "0x0000".toList]

/-- What stands behind the range of a line. -/
def contents? (entries : List (List Char)) : Option (Option (List Word)) :=
  if entries = filler then some none else (entries.mapM word?).map some

/-- The line that a text shows. -/
def read? (text : List Char) : Option MemoryLine :=
  match Blank.words text with
  | first :: ['-'] :: last :: [':'] :: entries => do
    let first ← number? first
    let last ← number? last
    let words? ← contents? entries
    return ⟨first, last, words?⟩
  | _ => none

theorem number?_addressText (n : Nat) : number? (addressText n).toList = some n := by
  rw [Command.toList_addressText, number?, unsigned?_padded (by decide) (by decide)]

theorem word?_addressText (w : Word) : word? (addressText w.toNat).toList = some w := by
  have hlt : w.toNat < 0x10000 := w.toNat_lt
  simp [word?, number?_addressText, hlt]

/-- The words behind the range of a line. -/
def entries (line : MemoryLine) : List (List Char) :=
  match line.words? with
  | some words => words.map fun w => (addressText w.toNat).toList
  | none => filler

theorem contents?_entries (line : MemoryLine) : contents? line.entries = some line.words? := by
  unfold entries
  split
  · next words hwords =>
    have hread : (words.map fun w => (addressText w.toNat).toList).mapM word? = some words :=
      mapM_map fun w _ => word?_addressText w
    -- the dots of filler are no word of memory
    have hne : (words.map fun w => (addressText w.toNat).toList) ≠ filler := by
      intro h
      rw [h] at hread
      cases hread
    rw [contents?, if_neg hne, hread, hwords]
    rfl
  · next hwords =>
    rw [contents?, if_pos rfl, hwords]

theorem toList_join_cons (w : Word) (words : List Word) :
    (String.join ((w :: words).map wordEntry)).toList =
      ' ' :: ((addressText w.toNat).toList ++
        (String.join (words.map wordEntry)).toList) := by
  have hblank : " ".toList = [' '] := by decide
  rw [List.map_cons, String.join_cons, String.toList_append, wordEntry, String.toList_append, hblank]
  rfl

theorem endsWord_join (words : List Word) :
    Blank.EndsWord (String.join (words.map wordEntry)).toList := by
  cases words with
  | nil => exact Blank.endsWord_nil
  | cons w words =>
    rw [toList_join_cons]
    exact Blank.endsWord_cons (by decide) _

theorem words_join (words : List Word) :
    Blank.words (String.join (words.map wordEntry)).toList =
      words.map fun w => (addressText w.toNat).toList := by
  induction words with
  | nil => rfl
  | cons w words ih =>
    rw [toList_join_cons, Blank.words_cons_of_blank (by decide),
      Blank.words_append (Command.isWord_addressText _) (endsWord_join words), ih, List.map_cons]

theorem endsWord_columns (line : MemoryLine) : Blank.EndsWord line.columns.toList := by
  unfold columns
  split
  · exact endsWord_join _
  · exact Blank.endsWord_cons (by decide) _

theorem words_columns (line : MemoryLine) : Blank.words line.columns.toList = line.entries := by
  unfold columns entries
  split
  · exact words_join _
  · decide

/-- The words of a line. -/
theorem words_text (line : MemoryLine) : Blank.words line.text.toList =
    (addressText line.first).toList :: ['-'] :: (addressText line.last).toList :: [':'] ::
      line.entries := by
  have hindent : "\t\t".toList = ['\t', '\t'] := by decide
  have hdash : " - ".toList = [' ', '-', ' '] := by decide
  have hcolon : " :".toList = [' ', ':'] := by decide
  have htext : line.text.toList = '\t' :: '\t' :: ((addressText line.first).toList ++
      ' ' :: (['-'] ++ ' ' :: ((addressText line.last).toList ++
        ' ' :: ([':'] ++ line.columns.toList)))) := by
    simp only [text, String.toList_append, hindent, hdash, hcolon, List.append_assoc,
      List.cons_append, List.nil_append]
  have hmark : ∀ c, Blank.isBlank c = false → Blank.IsWord [c] := by
    intro c hc
    exact ⟨List.cons_ne_nil _ _, List.forall_mem_singleton.2 hc⟩
  rw [htext, Blank.words_cons_of_blank (by decide), Blank.words_cons_of_blank (by decide),
    Blank.words_append_cons (Command.isWord_addressText _) (by decide),
    Blank.words_append_cons (hmark '-' (by decide)) (by decide),
    Blank.words_append_cons (Command.isWord_addressText _) (by decide),
    Blank.words_append (hmark ':' (by decide)) line.endsWord_columns, words_columns]

/-- A line is read as it was written. -/
theorem read?_text (line : MemoryLine) : read? line.text.toList = some line := by
  simp only [read?, words_text, number?_addressText, contents?_entries]
  rfl

theorem onOneLine_text (line : MemoryLine) : OnOneLine line.text := by
  have hindent : OnOneLine "\t\t" := by decide
  have hfirst := (hindent.append (onOneLine_hex 4 line.first)).append (by decide : OnOneLine " - ")
  have hrange := (hfirst.append (onOneLine_hex 4 line.last)).append (by decide : OnOneLine " :")
  have hcolumns : OnOneLine line.columns := by
    unfold columns
    split
    · next words _ =>
      refine OnOneLine.join fun column h => ?_
      obtain ⟨w, -, rfl⟩ := List.mem_map.1 h
      exact OnOneLine.append (by decide) (onOneLine_hex 4 w.toNat)
    · decide
  exact hrange.append hcolumns

end MemoryLine

/-- The lines of a table. The empty text is a table of nothing. -/
def readTable? (text : String) : Option (List MemoryLine) :=
  if text = "" then some [] else (text.toList.splitOn '\n').mapM MemoryLine.read?

/-- Whatever lines a table is made of, they are read as they were written. -/
theorem readTable?_stack (lines : List MemoryLine) :
    readTable? (Layout.stack (lines.map MemoryLine.text)) = some lines := by
  by_cases hlines : lines = []
  · rw [hlines]
    rfl
  have hsplit : (Layout.stack (lines.map MemoryLine.text)).toList.splitOn '\n' =
      lines.map fun line => line.text.toList := by
    rw [Layout.splitOn_stack, List.map_map]
    · rfl
    · intro text htext
      obtain ⟨line, -, rfl⟩ := List.mem_map.1 htext
      exact line.onOneLine_text
    · rwa [ne_eq, List.map_eq_nil_iff]
  have hread : ((Layout.stack (lines.map MemoryLine.text)).toList.splitOn '\n').mapM
      MemoryLine.read? = some lines := by
    rw [hsplit]
    exact mapM_map fun line _ => line.read?_text
  -- the empty text has one line, and that is no line of a table
  have hne : Layout.stack (lines.map MemoryLine.text) ≠ "" := by
    intro h
    rw [h] at hread
    cases hread
  rw [readTable?, if_neg hne, hread]

end SpriteVM.Table
