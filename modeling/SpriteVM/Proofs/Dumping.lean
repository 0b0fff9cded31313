import SpriteVM.Proofs.Listing

/-!
# Dumps of memory

A dump is a text that can be read back. `Dump.read?` reads one: it wants lines with single line feeds
between them, each with an address of four upper-case digits and bytes of two. It knows digits from a
table of its own and shares nothing with the writer but the way in which digit values make up a
number.

What it finds in the dump of a range are rows with their addresses (`read?_text`), and the bytes of
these rows are the part of the range that is in memory (`dump_lossless`).
-/

namespace SpriteVM

open Numeral

/-! ## Texts of one line -/

/-- A text that stays on its line. -/
def OnOneLine (s : String) : Prop :=
  '\n' ∉ s.toList

instance (s : String) : Decidable (OnOneLine s) :=
  inferInstanceAs (Decidable ('\n' ∉ s.toList))

theorem OnOneLine.append {s t : String} (hs : OnOneLine s) (ht : OnOneLine t) :
    OnOneLine (s ++ t) := by
  rw [OnOneLine, String.toList_append, List.mem_append]
  exact not_or.2 ⟨hs, ht⟩

theorem OnOneLine.join {texts : List String} (h : ∀ text ∈ texts, OnOneLine text) :
    OnOneLine (String.join texts) := by
  rw [OnOneLine, String.toList_join, List.mem_flatMap]
  rintro ⟨text, htext, hmem⟩
  exact h text htext hmem

theorem onOneLine_hexDigits (width n : Nat) : OnOneLine (hexDigits width n) :=
  notMem_hexDigits (by decide)

theorem onOneLine_hex (width n : Nat) : OnOneLine (hex width n) :=
  (by decide : OnOneLine "0x").append (onOneLine_hexDigits width n)

/-- Texts one under the other are the lines between the line feeds. -/
theorem Layout.splitOn_stack {texts : List String} (h : ∀ text ∈ texts, OnOneLine text)
    (hne : texts ≠ []) : (stack texts).toList.splitOn '\n' = texts.map String.toList := by
  rw [stack, String.toList_intercalate]
  refine List.splitOn_intercalate '\n' ?_ (by rwa [ne_eq, List.map_eq_nil_iff])
  intro cs hcs
  obtain ⟨text, htext, rfl⟩ := List.mem_map.1 hcs
  exact h text htext

namespace Dump

/-! ## Reading a dump -/

/-- The digits of a dump in the order of their values. -/
def digitTable : List Char :=
  "0123456789ABCDEF".toList

/-- The number of some digits. -/
def number? (cs : List Char) : Option Nat :=
  (cs.mapM fun c => digitTable.idxOf? c).map (value 16)

/-- The bytes of a line, each a blank and two digits. -/
def readBytes? : List Char → Option (List UInt8)
  | [] => some []
  | ' ' :: high :: low :: rest => do
    let b ← number? [high, low]
    let bs ← readBytes? rest
    return UInt8.ofNat b :: bs
  | _ => none

/-- The address of a line and its bytes. -/
def readLine? : List Char → Option (Nat × List UInt8)
  | '0' :: 'x' :: a :: b :: c :: d :: ' ' :: ':' :: rest => do
    let address ← number? [a, b, c, d]
    let bytes ← readBytes? rest
    return (address, bytes)
  | _ => none

/-- The lines of a dump. The empty text is a dump of nothing. -/
def read? (text : String) : Option (List (Nat × List UInt8)) :=
  if text = "" then some [] else (text.toList.splitOn '\n').mapM readLine?

/-- A byte is read from its blank and digits, and then the bytes behind it. -/
theorem readBytes?_append {ds rest : List Char} {n : Nat} (hlength : ds.length = 2)
    (h : number? ds = some n) :
    readBytes? (' ' :: (ds ++ rest)) = (readBytes? rest).map (UInt8.ofNat n :: ·) := by
  match ds, hlength with
  | [high, low], _ =>
    rw [List.cons_append, List.cons_append, List.nil_append, readBytes?, h]
    cases readBytes? rest <;> rfl

theorem readLine?_append {ds rest : List Char} {address : Nat} (hlength : ds.length = 4)
    (h : number? ds = some address) :
    readLine? ('0' :: 'x' :: (ds ++ ' ' :: ':' :: rest)) =
      (readBytes? rest).map (address, ·) := by
  match ds, hlength with
  | [a, b, c, d], _ =>
    rw [List.cons_append, List.cons_append, List.cons_append, List.cons_append, List.nil_append,
      readLine?, h]
    cases readBytes? rest <;> rfl

theorem number?_hexDigits (width n : Nat) : number? (hexDigits width n).toList = some n := by
  have all : ∀ d ∈ List.range 16, digitTable.idxOf? (digitChar d) = some d := by decide
  have hdigits : ∀ d ∈ List.replicate (width - (digits 16 n).length) 0 ++ digits 16 n, d < 16 :=
    fun d hd => lt_of_mem_replicate_zero_append (by decide) hd
  rw [number?, hexDigits, String.toList_ofList, padded_eq_map,
    mapM_map fun d hd => all d (List.mem_range.2 (hdigits d hd)), Option.map_some,
    value_replicate_zero_append, value_digits]

/-- Bytes as they are written on a line. -/
def columns (bytes : List UInt8) : String :=
  String.join (bytes.map fun b => " " ++ hexDigits 2 b.toNat)

theorem toList_columns_cons (b : UInt8) (bytes : List UInt8) :
    (columns (b :: bytes)).toList =
      ' ' :: ((hexDigits 2 b.toNat).toList ++ (columns bytes).toList) := by
  have hblank : " ".toList = [' '] := by decide
  rw [columns, List.map_cons, String.join_cons, String.toList_append, String.toList_append, hblank,
    columns]
  rfl

theorem toList_lineText (address : Nat) (bytes : List UInt8) :
    (lineText address bytes).toList =
      '0' :: 'x' :: ((hexDigits 4 address).toList ++ ' ' :: ':' :: (columns bytes).toList) := by
  have hstart : "0x".toList = ['0', 'x'] := by decide
  have hcolon : " :".toList = [' ', ':'] := by decide
  rw [lineText, addressText, hex, String.toList_append, String.toList_append, String.toList_append,
    hstart, hcolon, List.append_assoc, List.append_assoc, columns]
  rfl

/-- The bytes of a line are read as they were written. -/
theorem readBytes?_columns (bytes : List UInt8) :
    readBytes? (columns bytes).toList = some bytes := by
  induction bytes with
  | nil => rfl
  | cons b bytes ih =>
    have hlength : (hexDigits 2 b.toNat).toList.length = 2 :=
      String.length_toList.trans (length_hexDigits (by decide) b.toNat_lt)
    rw [toList_columns_cons, readBytes?_append hlength (number?_hexDigits 2 b.toNat), ih,
      UInt8.ofNat_toNat]
    rfl

/-- A line is read as it was written. -/
theorem readLine?_lineText {address : Nat} (h : address < 0x10000) (bytes : List UInt8) :
    readLine? (lineText address bytes).toList = some (address, bytes) := by
  have hlength : (hexDigits 4 address).toList.length = 4 :=
    String.length_toList.trans (length_hexDigits (by decide) h)
  rw [toList_lineText, readLine?_append hlength (number?_hexDigits 4 address), readBytes?_columns]
  rfl

theorem onOneLine_lineText (address : Nat) (bytes : List UInt8) :
    OnOneLine (lineText address bytes) := by
  refine ((onOneLine_hex 4 address).append (by decide)).append (OnOneLine.join fun column h => ?_)
  obtain ⟨b, -, rfl⟩ := List.mem_map.1 h
  exact OnOneLine.append (by decide) (onOneLine_hexDigits 2 b.toNat)

/-! ## The rows of a dump -/

/-- Rows of bytes with their addresses, the first of which is `address`. -/
def numbered (address : Nat) : List (List UInt8) → List (Nat × List UInt8)
  | [] => []
  | row :: rest => (address, row) :: numbered (address + lineSize) rest

theorem lines_eq_map (address : Nat) (rows : List (List UInt8)) :
    lines address rows = (numbered address rows).map fun row => lineText row.1 row.2 := by
  induction rows generalizing address with
  | nil => rfl
  | cons row rest ih => exact congrArg (lineText address row :: ·) (ih (address + lineSize))

theorem map_snd_numbered (address : Nat) (rows : List (List UInt8)) :
    (numbered address rows).map Prod.snd = rows := by
  induction rows generalizing address with
  | nil => rfl
  | cons row rest ih => exact congrArg (row :: ·) (ih (address + lineSize))

theorem getElem?_numbered (address : Nat) (rows : List (List UInt8)) (k : Nat) :
    (numbered address rows)[k]? = rows[k]?.map fun row => (address + 16 * k, row) := by
  induction rows generalizing address k with
  | nil => rfl
  | cons row rest ih =>
    cases k with
    | zero => rfl
    | succ k =>
      have hplace : address + lineSize + 16 * k = address + 16 * (k + 1) := by
        simp only [lineSize]
        omega
      rw [← hplace]
      exact ih (address + lineSize) k

variable {memory : Memory} {start count : Nat}

/-- Where the sum saturates, the end of memory comes first. -/
theorem upper_eq : upper start count = min (lower start + count) memorySize := by
  have hlimit : memorySize ≤ wordLimit - 1 := by decide
  rw [upper, Nat.min_assoc, Nat.min_eq_right hlimit]

/-- A range that is cut off stays in memory. -/
theorem range_le : lower start + (upper start count - lower start) ≤ memorySize := by
  rw [upper_eq, lower]
  omega

/-- The bytes of a dump are a block that exists. -/
theorem block?_eq_bytes :
    memory.block? (lower start) (upper start count - lower start) =
      some (bytes memory start count) :=
  Bank.block?_eq_some range_le

/-- The rows of the dump of a range. -/
def rows (memory : Memory) (start count : Nat) : List (Nat × List UInt8) :=
  numbered (lower start) (Layout.rows lineSize (bytes memory start count))

theorem text_eq :
    text memory start count =
      "\n".intercalate ((rows memory start count).map fun row => lineText row.1 row.2) := by
  rw [text, Layout.stack, lines_eq_map, rows]

theorem length_bytes :
    (bytes memory start count).length = upper start count - lower start :=
  Bank.length_block range_le

/-- A range that has bytes begins where it was asked for. -/
theorem lower_eq_of_lt {i : Nat} (h : i < (bytes memory start count).length) :
    lower start = start := by
  rw [length_bytes, upper_eq, lower] at h
  rw [lower]
  omega

/-- The rows have all the bytes. -/
theorem flatMap_snd_rows :
    (rows memory start count).flatMap Prod.snd = bytes memory start count := by
  rw [List.flatMap_def, rows, map_snd_numbered, Layout.flatten_rows]

theorem length_rows :
    (rows memory start count).length = ((bytes memory start count).length + 15) / 16 := by
  have hlength := congrArg List.length (map_snd_numbered (lower start)
    (Layout.rows lineSize (bytes memory start count)))
  rw [List.length_map] at hlength
  rw [rows, hlength, Layout.length_rows (by decide)]
  rfl

theorem getElem?_rows {k : Nat} {row : Nat × List UInt8} :
    (rows memory start count)[k]? = some row ↔
      16 * k < (bytes memory start count).length ∧
        row = (start + 16 * k, ((bytes memory start count).drop (16 * k)).take 16) := by
  rw [rows, getElem?_numbered, Layout.getElem?_rows (by decide), lineSize]
  by_cases h : 16 * k < (bytes memory start count).length
  · rw [if_pos h, lower_eq_of_lt h, Option.map_some, Option.some.injEq, and_iff_right h, eq_comm]
  · rw [if_neg h]
    exact iff_of_false nofun fun hrow => h hrow.1

/-- All addresses are in memory. -/
theorem lt_of_mem_rows {row : Nat × List UInt8} (h : row ∈ rows memory start count) :
    row.1 < memorySize := by
  obtain ⟨k, hk⟩ := List.mem_iff_getElem?.1 h
  obtain ⟨hlt, rfl⟩ := getElem?_rows.1 hk
  have hend := @range_le start count
  rw [← @length_bytes memory start count, lower_eq_of_lt hlt] at hend
  exact Nat.lt_of_lt_of_le (Nat.add_lt_add_left hlt start) hend

theorem splitOn_text (h : rows memory start count ≠ []) :
    (text memory start count).toList.splitOn '\n' =
      (rows memory start count).map fun row => (lineText row.1 row.2).toList := by
  have hsplit := @Layout.splitOn_stack
    ((rows memory start count).map fun row => lineText row.1 row.2) ?_
    (by rwa [ne_eq, List.map_eq_nil_iff])
  · rw [text_eq, ← Layout.stack, hsplit, List.map_map]
    rfl
  · intro line hline
    obtain ⟨row, -, rfl⟩ := List.mem_map.1 hline
    exact onOneLine_lineText row.1 row.2

theorem text_eq_empty : text memory start count = "" ↔ rows memory start count = [] := by
  constructor
  · intro h
    refine Classical.not_not.1 fun hne => ?_
    have hlines := splitOn_text hne
    rw [h] at hlines
    obtain ⟨row, rest, hrows⟩ := List.exists_cons_of_ne_nil hne
    rw [hrows] at hlines
    -- the empty text has one line, and that has no address
    have hfirst : [] = (lineText row.1 row.2).toList := List.head_eq_of_cons_eq hlines
    have hmem : row ∈ rows memory start count := hrows ▸ List.mem_cons_self ..
    have hread := readLine?_lineText (Nat.lt_trans (lt_of_mem_rows hmem) (by decide)) row.2
    rw [← hfirst] at hread
    cases hread
  · intro h
    rw [text_eq, h]
    rfl

/-- What is found in a dump are its rows. -/
theorem read?_text : read? (text memory start count) = some (rows memory start count) := by
  by_cases h : rows memory start count = []
  · rw [read?, if_pos (text_eq_empty.2 h), h]
  · rw [read?, if_neg (mt text_eq_empty.1 h), splitOn_text h]
    refine mapM_map fun row hrow => readLine?_lineText ?_ row.2
    exact Nat.lt_trans (lt_of_mem_rows hrow) (by decide)

/-! ## The range of a dump -/

/-- The bytes of a dump are those of the range that are in memory. -/
theorem bytes_eq {f t : Nat} (hf : f = min start memorySize) (ht : t = min (f + count) memorySize) :
    bytes memory start count = (memory.toList.drop f).take (t - f) := by
  have hupper : upper start count = t := by rw [upper_eq, lower, ← hf, ht]
  rw [bytes, hupper, lower, ← hf, Bank.block_eq]

end Dump

/-- The two bytes of a word, the high one first. -/
def Word.bytes (w : Word) : List UInt8 :=
  [UInt8.ofNat (w.toNat / 0x100), UInt8.ofNat (w.toNat % 0x100)]

theorem Word.bytes_ofBytes (high low : UInt8) : (Word.ofBytes high low).bytes = [high, low] := by
  have hlow := low.toNat_lt
  have hdiv : (high.toNat * 0x100 + low.toNat) / 0x100 = high.toNat := by omega
  have hmod : (high.toNat * 0x100 + low.toNat) % 0x100 = low.toNat := by omega
  rw [Word.bytes, Word.toNat_ofBytes, hdiv, hmod, UInt8.ofNat_toNat, UInt8.ofNat_toNat]

namespace Memory

variable {memory : Memory} {start n : Nat}

/-- Words one behind the other are made of the bytes that stand there. -/
theorem flatMap_entries (h : start + 2 * n ≤ memorySize) :
    (List.range n).flatMap (fun k => (memory.entry (start + 2 * k)).word.bytes) =
      (memory.toList.drop start).take (2 * n) := by
  have hcell : ∀ i < 2 * n,
      (memory.toList.drop start)[i]? = some (memory.cell (start + i)) := by
    intro i hi
    rw [List.getElem?_drop, Bank.getElem?_toList, Bank.get?_eq_some (by omega)]
  induction n with
  | zero => rfl
  | succ n ih =>
    have hrest := ih (by omega) fun i hi => hcell i (by omega)
    rw [List.range_succ, List.flatMap_append, hrest, List.flatMap_singleton, Nat.mul_succ,
      List.take_add_one, List.take_add_one, hcell _ (by omega), hcell _ (by omega),
      List.append_assoc]
    exact congrArg _ (Word.bytes_ofBytes _ _)

theorem flatMap_listing (h : start + 2 * n ≤ memorySize) :
    (Memory.listing memory start n).flatMap (fun e => e.word.bytes) =
      (memory.toList.drop start).take (2 * n) := by
  have hextent : extent start n = n := by
    simp only [extent, wordSize]
    omega
  rw [listing_eq, hextent, List.flatMap_map, flatMap_entries h]

end Memory

namespace Machine

variable {m : Machine} {start count f t : Nat}

/-- **Dumps are lossless.** The dump of a range that is cut off at the end of memory, from `f` to
`t`, is empty just when the range is. Otherwise it is made of lines of sixteen bytes, the last one of
the rest, with single line feeds between them, and each line begins with the address of its first
byte. Read back, the dump has the bytes of the range in their order; a listing of the range has the
same bytes, if their number is even. -/
theorem dump_lossless (m : Machine) (hf : f = min start 4096) (ht : t = min (f + count) 4096) :
    let text := Dump.text m.memory start count
    (Command.dump start count).respond m = { machine := m, lines := [text] } ∧
    (text = "" ↔ f = t) ∧
    (f ≠ t → ∃ lines, text = "\n".intercalate lines ∧ lines.length = (t - f + 15) / 16 ∧
      ∀ k line, lines[k]? = some line → '\n' ∉ line.toList ∧ ∃ bytes,
        line = "0x" ++ hexDigits 4 (f + 16 * k) ++ " :" ++ Dump.columns bytes ∧
        Dump.readLine? line.toList = some (f + 16 * k, bytes) ∧
        0 < bytes.length ∧ (k + 1 < lines.length → bytes.length = 16)) ∧
    (∃ rows, Dump.read? text = some rows ∧
      rows.flatMap Prod.snd = (m.memory.toList.drop f).take (t - f)) ∧
    (2 ∣ t - f → (m.listing start ((t - f) / 2)).flatMap (fun e => e.word.bytes) =
      (m.memory.toList.drop f).take (t - f)) := by
  intro text
  have hbytes : Dump.bytes m.memory start count = (m.memory.toList.drop f).take (t - f) :=
    Dump.bytes_eq hf ht
  have hlength : (Dump.bytes m.memory start count).length = t - f := by
    rw [Dump.length_bytes, Dump.upper_eq, Dump.lower, memorySize, ← hf, ← ht]
  have hplace : f ≠ t → f = start := by omega
  refine ⟨rfl, ?_, fun hne => ?_, ⟨_, Dump.read?_text, Dump.flatMap_snd_rows.trans hbytes⟩, ?_⟩
  · rw [Dump.text_eq_empty, ← List.length_eq_zero_iff, Dump.length_rows, hlength]
    omega
  · refine ⟨_, Dump.text_eq, by rw [List.length_map, Dump.length_rows, hlength], ?_⟩
    intro k line hline
    rw [List.getElem?_map] at hline
    obtain ⟨row, hrow, rfl⟩ := Option.map_eq_some_iff.1 hline
    have hread := Dump.readLine?_lineText
      (Nat.lt_trans (Dump.lt_of_mem_rows (List.mem_of_getElem? hrow)) (by decide)) row.2
    obtain ⟨hlt, rfl⟩ := Dump.getElem?_rows.1 hrow
    rw [hplace hne]
    refine ⟨Dump.onOneLine_lineText _ _, _, rfl, hread, ?_, ?_⟩
    · rw [List.length_take, List.length_drop]
      omega
    · rw [List.length_map, Dump.length_rows, List.length_take, List.length_drop]
      omega
  · rintro ⟨n, hn⟩
    rw [hn, Nat.mul_div_cancel_left n (by decide)]
    rcases Nat.eq_zero_or_pos n with rfl | hpos
    · rfl
    · have hfits : start + 2 * n ≤ memorySize := by
        rw [memorySize]
        omega
      rw [hplace (by omega)]
      exact Memory.flatMap_listing hfits

/-- A range that begins eighteen bytes before the end of memory and reaches far beyond it. -/
theorem dump_lossless_clipped :
    ∃ m : Machine, m.Reachable ∧
      (∃ lines, Dump.text m.memory 0xFEE (wordLimit - 1) = "\n".intercalate lines ∧
        lines.length = 2) ∧
      (∃ rows, Dump.read? (Dump.text m.memory 0xFEE (wordLimit - 1)) = some rows ∧
        rows.flatMap Prod.snd = (m.memory.toList.drop 0xFEE).take 18) ∧
      (m.listing 0xFEE 9).flatMap (fun e => e.word.bytes) =
        (m.memory.toList.drop 0xFEE).take 18 := by
  obtain ⟨m, hm, -⟩ := exists_started ⟨"full", List.replicate 3584 0xAA⟩
    (Nat.le_of_eq List.length_replicate)
  obtain ⟨-, -, hlines, hrows, hlisting⟩ :=
    m.dump_lossless (show 0xFEE = min 0xFEE 4096 by decide)
      (show 4096 = min (0xFEE + (wordLimit - 1)) 4096 by decide)
  obtain ⟨lines, htext, hcount, -⟩ := hlines (by decide)
  exact ⟨m, hm, ⟨lines, htext, hcount⟩, hrows, hlisting (by decide)⟩

end Machine

end SpriteVM
