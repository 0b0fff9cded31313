import Mathlib.Data.List.Chain
import Mathlib.Data.List.Induction
import SpriteVM.Inspect.Overview
import SpriteVM.Proofs.MemoryLines

/-!
# The table of the memory partitions the memory

The rows of the table come from going over the memory block by block (`foldl_pushBlock`). `LinesOver`
says what lines there are in the end: one for each block that is not all zero, and one for each run
of blocks that are. `Partition` says what this means for the bytes, and `LinesOver.partition` draws
it from the place that each line has among the blocks.
-/

namespace SpriteVM

namespace Table

/-! ## Block by block -/

/-- The rows when there is one more block at the end, which begins at `first`. Zeros prolong the last
row if that is one of zeros. -/
def pushBlock (rows : List MemoryRow) (first : Nat) (block : List UInt8) : List MemoryRow :=
  if isNull block then
    match rows.getLast? with
    | some (.zeros start _) => rows.dropLast ++ [.zeros start (first + block.length - 1)]
    | _ => rows ++ [.zeros first (first + block.length - 1)]
  else rows ++ [.bytes first block]

/-- Only the last row changes. -/
theorem pushBlock_cons {rows : List MemoryRow} (hne : rows ≠ []) (row : MemoryRow) (first : Nat)
    (block : List UInt8) :
    pushBlock (row :: rows) first block = row :: pushBlock rows first block := by
  obtain ⟨next, rest, rfl⟩ := List.exists_cons_of_ne_nil hne
  unfold pushBlock
  rw [List.getLast?_cons_cons, List.dropLast_cons_of_ne_nil hne]
  split
  · split <;> rfl
  · rfl

/-- A block behind all others changes the rows at their end only. -/
theorem memoryRows_concat (first : Nat) (blocks : List (List UInt8)) (block : List UInt8) :
    memoryRows first (blocks ++ [block]) =
      pushBlock (memoryRows first blocks) (first + blocks.flatten.length) block := by
  -- blocks are put in front of the rows of the rest, which meets the new one if there is one row
  induction blocks generalizing first with
  | nil => simp [memoryRows, pushBlock]
  | cons front rest ih =>
    rw [List.cons_append, memoryRows, ih, List.flatten_cons, List.length_append, ← Nat.add_assoc,
      memoryRows]
    generalize memoryRows (first + front.length) rest = rows
    by_cases hfront : isNull front = true
    · rw [if_pos hfront, if_pos hfront]
      rcases rows with _ | ⟨_ | _, _ | ⟨next, rows⟩⟩
      case nil | cons.zeros.nil | cons.bytes.nil =>
        by_cases hblock : isNull block = true <;> simp [pushBlock, hblock]
      case cons.zeros.cons =>
        rw [pushBlock_cons (List.cons_ne_nil _ _)]
        exact (pushBlock_cons (List.cons_ne_nil _ _) _ _ _).symm
      case cons.bytes.cons =>
        rw [pushBlock_cons (List.cons_ne_nil _ _)]
        dsimp only
        rw [pushBlock_cons (List.cons_ne_nil _ _), pushBlock_cons (List.cons_ne_nil _ _)]
    · rw [if_neg hfront, if_neg hfront]
      cases rows with
      | nil => by_cases hblock : isNull block = true <;> simp [pushBlock, hblock]
      | cons next rows => rw [pushBlock_cons (List.cons_ne_nil _ _)]

/-- The rows come from going over the blocks once, keeping the rows so far and the place of the next
block. -/
theorem foldl_pushBlock (blocks : List (List UInt8)) :
    blocks.foldl (fun (rows, first) block => (pushBlock rows first block, first + block.length))
      ([], 0) = (memoryRows 0 blocks, blocks.flatten.length) := by
  induction blocks using List.reverseRecOn with
  | nil => rfl
  | append_singleton blocks block ih =>
    have hlength : (blocks ++ [block]).flatten.length = blocks.flatten.length + block.length := by
      rw [List.flatten_append, List.length_append, List.flatten_singleton]
    rw [List.foldl_append, ih, memoryRows_concat, Nat.zero_add, hlength]
    rfl

/-! ## Lines over blocks -/

/-- All bytes are zero. -/
def IsZero (bytes : List UInt8) : Prop :=
  ∀ b ∈ bytes, b = 0

/-- A block of zeros. -/
def zeroBlock : List UInt8 :=
  List.replicate bytesPerRow 0

theorem isZero_zeroBlock : IsZero zeroBlock :=
  fun _ => List.eq_of_mem_replicate

theorem eq_zeroBlock {block : List UInt8} (hlength : block.length = bytesPerRow)
    (h : IsZero block) : block = zeroBlock :=
  List.eq_replicate_iff.2 ⟨hlength, h⟩

/-- The lines over blocks, the first of which begins at `first`. -/
inductive LinesOver : Nat → List (List UInt8) → List MemoryLine → Prop where
  /-- there are no blocks -/
  | nil {first : Nat} : LinesOver first [] []
  /-- a block that is not all zero has a line -/
  | words {first : Nat} {block : List UInt8} {blocks : List (List UInt8)} {lines : List MemoryLine}
      (hlength : block.length = bytesPerRow) (hblock : ¬ IsZero block)
      (h : LinesOver (first + bytesPerRow) blocks lines) :
      LinesOver first (block :: blocks) (⟨first, first + 15, some (wordsOf block)⟩ :: lines)
  /-- all the blocks of zeros up to one that is not all zero have a line -/
  | filler {first n : Nat} {blocks : List (List UInt8)} {lines : List MemoryLine} (hn : 0 < n)
      (hnext : ∀ block ∈ blocks.head?, ¬ IsZero block)
      (h : LinesOver (first + bytesPerRow * n) blocks lines) :
      LinesOver first (List.replicate n zeroBlock ++ blocks)
        (⟨first, first + bytesPerRow * n - 1, none⟩ :: lines)

namespace LinesOver

variable {first : Nat} {blocks : List (List UInt8)} {lines : List MemoryLine}

/-- A block of zeros joins the filler that follows it. -/
theorem join {next last : Nat}
    (h : LinesOver (first + bytesPerRow) blocks (⟨next, last, none⟩ :: lines)) :
    LinesOver first (zeroBlock :: blocks) (⟨first, last, none⟩ :: lines) := by
  cases h with
  | @filler _ n blocks _ hn hnext h =>
    have hend : first + bytesPerRow + bytesPerRow * n = first + bytesPerRow * (n + 1) := by
      rw [Nat.mul_succ]
      omega
    rw [hend] at h ⊢
    exact .filler (Nat.succ_pos n) hnext h

/-- A block of zeros that no filler follows has a line. -/
theorem cons_zeroBlock (hnext : ∀ line ∈ lines.head?, line.words? ≠ none)
    (h : LinesOver (first + bytesPerRow) blocks lines) :
    LinesOver first (zeroBlock :: blocks) (⟨first, first + bytesPerRow - 1, none⟩ :: lines) := by
  refine @LinesOver.filler first 1 blocks lines (by decide) ?_ h
  cases h with
  | nil => nofun
  | words _ hblock _ =>
    rintro _ ⟨⟩
    exact hblock
  | filler => exact absurd rfl (hnext _ rfl)

end LinesOver

/-- The line of a row. -/
def MemoryRow.line : MemoryRow → MemoryLine
  | .zeros first last => ⟨first, last, none⟩
  | .bytes first contents => ⟨first, first + 15, some (wordsOf contents)⟩

theorem MemoryRow.text_line {row : MemoryRow} {limit : Nat} (h : row.Within limit) :
    row.line.text = row.text := by
  cases row with
  | zeros first last =>
    have hfiller : " " ++ zeroFiller =
        " 0x0000                    ...                    0x0000" := by decide
    rw [text_zeros, hfiller, line, MemoryLine.text, MemoryLine.columns, indent, rangeText]
    simp only [String.append_assoc]
  | bytes first contents =>
    rw [text_bytes h.1, line, MemoryLine.text, MemoryLine.columns, indent, rangeText]
    simp only [String.append_assoc]

/-- The rows of a table have the lines over its blocks. -/
theorem linesOver_memoryRows {first : Nat} {blocks : List (List UInt8)}
    (hblocks : ∀ block ∈ blocks, block.length = bytesPerRow) :
    LinesOver first blocks ((memoryRows first blocks).map MemoryRow.line) := by
  induction blocks generalizing first with
  | nil => exact .nil
  | cons block rest ih =>
    obtain ⟨hblock, hrest⟩ := List.forall_mem_cons.1 hblocks
    have hlines := @ih (first + bytesPerRow) hrest
    rw [memoryRows]
    simp only [hblock]
    by_cases hzero : IsZero block
    · obtain rfl := eq_zeroBlock hblock hzero
      rw [if_pos ((isNull_iff hblock).2 hzero)]
      -- how a block of zeros comes into the table depends on the row behind it
      generalize memoryRows (first + bytesPerRow) rest = rows at hlines
      rcases rows with _ | ⟨_ | _, rows⟩
      case nil =>
        refine hlines.cons_zeroBlock ?_
        rintro _ ⟨⟩
      case cons.zeros => exact hlines.join
      case cons.bytes =>
        refine hlines.cons_zeroBlock ?_
        rintro _ ⟨⟩ ⟨⟩
    · rw [if_neg (mt (isNull_iff hblock).1 hzero)]
      exact .words hblock hzero hlines

/-! ## Lines over bytes -/

/-- The bytes of a stretch of memory. -/
def stretch (bytes : List UInt8) (first count : Nat) : List UInt8 :=
  (bytes.drop first).take count

/-- Lines partition bytes. -/
structure Partition (bytes : List UInt8) (lines : List MemoryLine) : Prop where
  /-- there are lines just if there are bytes -/
  nil_iff : lines = [] ↔ bytes = []
  /-- the first line begins with the first byte -/
  starts : ∀ line ∈ lines.head?, line.first = 0
  /-- each line begins where the one before it ends -/
  follows : lines.IsChain fun line next => next.first = line.last + 1
  /-- the last line ends with the last byte -/
  ends : ∀ line ∈ lines.getLast?, line.last + 1 = bytes.length
  /-- no line is empty -/
  ordered : ∀ line ∈ lines, line.first ≤ line.last
  /-- filler stands for zeros, and all zeros are shown as filler -/
  filler_iff : ∀ line ∈ lines,
    line.words? = none ↔ IsZero (stretch bytes line.first (line.last + 1 - line.first))
  /-- filler stands for whole blocks of zeros, and the blocks next to these are not all zero -/
  maximal : ∀ line ∈ lines, line.words? = none → 16 ∣ line.first ∧ 16 ∣ line.last + 1 ∧
    (0 < line.first → ¬ IsZero (stretch bytes (line.first - 16) 16)) ∧
    (line.last + 1 < bytes.length → ¬ IsZero (stretch bytes (line.last + 1) 16))
  /-- filler does not follow filler -/
  apart : lines.IsChain fun line next => line.words? ≠ none ∨ next.words? ≠ none
  /-- any other line stands for sixteen bytes and shows their words -/
  words : ∀ line ∈ lines, ∀ words, line.words? = some words →
    line.last = line.first + 15 ∧ words.length = 8 ∧
      words.flatMap Word.bytes = stretch bytes line.first 16
  /-- the lines stand for the bytes -/
  expand : lines.flatMap MemoryLine.expand = bytes

/-- Words are made of their bytes, when no byte is left over. -/
theorem flatMap_bytes_wordsOf {bytes : List UInt8} (h : 2 ∣ bytes.length) :
    (wordsOf bytes).flatMap Word.bytes = bytes := by
  fun_induction wordsOf bytes with
  | case1 high low rest ih =>
    rw [List.length_cons, List.length_cons] at h
    rw [List.flatMap_cons, ih (by omega), Word.bytes_ofBytes]
    rfl
  | case2 bytes hshort =>
    rcases bytes with _ | ⟨high, _ | ⟨low, rest⟩⟩
    · rfl
    · exact absurd h (by simp)
    · exact (hshort high low rest rfl).elim

namespace LinesOver

variable {first : Nat} {blocks : List (List UInt8)} {lines : List MemoryLine} {line : MemoryLine}

theorem nil_iff (h : LinesOver first blocks lines) : lines = [] ↔ blocks = [] := by
  cases h with
  | nil => exact iff_of_true rfl rfl
  | words => exact iff_of_false nofun nofun
  | filler hn =>
    refine iff_of_false nofun fun hnil => ?_
    exact Nat.ne_of_gt hn ((List.replicate_eq_nil_iff _).1 (List.append_eq_nil_iff.1 hnil).1)

theorem first_of_mem_head (h : LinesOver first blocks lines) (hline : line ∈ lines.head?) :
    line.first = first := by
  cases h with
  | nil => cases hline
  | words | filler =>
    cases hline
    rfl

/-- Filler at the beginning stands for zeros at the beginning. -/
theorem isZero_of_mem_head (h : LinesOver first blocks lines) (hline : line ∈ lines.head?)
    (hfiller : line.words? = none) : ∃ block ∈ blocks.head?, IsZero block := by
  cases h with
  | nil => cases hline
  | words =>
    cases hline
    cases hfiller
  | @filler _ n blocks _ hn =>
    obtain ⟨k, rfl⟩ := Nat.exists_eq_succ_of_ne_zero (Nat.ne_of_gt hn)
    exact ⟨zeroBlock, rfl, isZero_zeroBlock⟩

theorem follows (h : LinesOver first blocks lines) :
    lines.IsChain fun line next => next.first = line.last + 1 := by
  induction h with
  | nil => exact .nil
  | words _ _ h ih => exact List.isChain_cons.2 ⟨fun next hnext => h.first_of_mem_head hnext, ih⟩
  | @filler first n _ _ hn _ h ih =>
    refine List.isChain_cons.2 ⟨fun next hnext => ?_, ih⟩
    have hpos : 0 < bytesPerRow * n := Nat.mul_pos (by decide) hn
    rw [h.first_of_mem_head hnext]
    show first + bytesPerRow * n = first + bytesPerRow * n - 1 + 1
    omega

theorem apart (h : LinesOver first blocks lines) :
    lines.IsChain fun line next => line.words? ≠ none ∨ next.words? ≠ none := by
  induction h with
  | nil => exact .nil
  | words _ _ _ ih => exact List.isChain_cons.2 ⟨fun _ _ => .inl nofun, ih⟩
  | filler _ hnext h ih =>
    refine List.isChain_cons.2 ⟨fun next hmem => .inr fun hfiller => ?_, ih⟩
    obtain ⟨block, hblock, hzero⟩ := h.isZero_of_mem_head hmem hfiller
    exact hnext block hblock hzero

/-- The lines end where those behind the first one end, or else where the first one does. -/
theorem ends_cons {limit : Nat} (hnil : lines = [] → line.last + 1 = limit)
    (hlines : ∀ last ∈ lines.getLast?, last.last + 1 = limit) :
    ∀ last ∈ (line :: lines).getLast?, last.last + 1 = limit := by
  cases lines with
  | nil =>
    rintro _ ⟨⟩
    exact hnil rfl
  | cons next lines =>
    rw [List.getLast?_cons_cons]
    exact hlines

theorem ends (h : LinesOver first blocks lines) :
    ∀ line ∈ lines.getLast?, line.last + 1 = first + blocks.flatten.length := by
  induction h with
  | nil => nofun
  | @words first block blocks lines hlength _ h ih =>
    rw [List.flatten_cons, List.length_append, hlength, ← Nat.add_assoc]
    refine ends_cons (fun hnil => ?_) ih
    rw [h.nil_iff.1 hnil]
    rfl
  | @filler first n blocks lines hn _ h ih =>
    have hpos : 0 < bytesPerRow * n := Nat.mul_pos (by decide) hn
    rw [List.flatten_append, List.length_append, zeroBlock, List.flatten_replicate_replicate,
      List.length_replicate, Nat.mul_comm n, ← Nat.add_assoc]
    refine ends_cons (fun hnil => ?_) ih
    rw [h.nil_iff.1 hnil]
    show first + bytesPerRow * n - 1 + 1 = first + bytesPerRow * n + 0
    omega

theorem flatMap_expand (h : LinesOver first blocks lines) :
    lines.flatMap MemoryLine.expand = blocks.flatten := by
  induction h with
  | nil => rfl
  | @words first block blocks lines hlength _ _ ih =>
    rw [List.flatMap_cons, ih, List.flatten_cons]
    exact congrArg (· ++ blocks.flatten) (flatMap_bytes_wordsOf ⟨8, hlength⟩)
  | @filler first n blocks lines hn _ _ ih =>
    have hpos : 0 < bytesPerRow * n := Nat.mul_pos (by decide) hn
    have hcount : first + bytesPerRow * n - 1 + 1 - first = n * bytesPerRow := by
      rw [Nat.mul_comm n]
      omega
    rw [List.flatMap_cons, ih, List.flatten_append, MemoryLine.expand, zeroBlock,
      List.flatten_replicate_replicate, hcount]

end LinesOver

/-! ## The place of a line -/

/-- A line stands for the blocks `mid` with others before and behind them. -/
structure MemoryLine.Stands (line : MemoryLine) (pre mid post : List (List UInt8)) : Prop where
  /-- there are blocks -/
  ne_nil : mid ≠ []
  /-- filler stands for blocks of zeros up to the next ones that are not all zero -/
  filler : line.words? = none → (∀ block ∈ mid, IsZero block) ∧
    (∀ block ∈ pre.getLast?, ¬ IsZero block) ∧ ∀ block ∈ post.head?, ¬ IsZero block
  /-- words stand for the block that they are from -/
  words : ∀ words, line.words? = some words →
    ∃ block, mid = [block] ∧ ¬ IsZero block ∧ words = wordsOf block

/-- There are more blocks at the beginning. -/
theorem MemoryLine.Stands.append {line : MemoryLine} {front pre mid post : List (List UInt8)}
    (h : line.Stands pre mid post)
    (hfront : line.words? = none → pre = [] → ∀ block ∈ front.getLast?, ¬ IsZero block) :
    line.Stands (front ++ pre) mid post := by
  refine ⟨h.ne_nil, fun hnone => ?_, h.words⟩
  obtain ⟨hmid, hpre, hpost⟩ := h.filler hnone
  refine ⟨hmid, ?_, hpost⟩
  rw [List.getLast?_append]
  cases hlast : pre.getLast? with
  | none => exact hfront hnone (List.getLast?_eq_none_iff.1 hlast)
  | some last =>
    rw [hlast] at hpre
    exact hpre

/-- Every line has its place among the blocks. -/
theorem LinesOver.exists_stands {first : Nat} {blocks : List (List UInt8)} {lines : List MemoryLine}
    {line : MemoryLine} (h : LinesOver first blocks lines) (hline : line ∈ lines) :
    ∃ pre mid post, blocks = pre ++ mid ++ post ∧ line.first = first + bytesPerRow * pre.length ∧
      line.last + 1 = line.first + bytesPerRow * mid.length ∧ line.Stands pre mid post := by
  induction h with
  | nil => cases hline
  | @words first block blocks lines hlength hblock h ih =>
    rcases List.mem_cons.1 hline with rfl | hline
    · refine ⟨[], [block], blocks, rfl, rfl, rfl, List.cons_ne_nil _ _, nofun, ?_⟩
      rintro _ ⟨⟩
      exact ⟨block, rfl, hblock, rfl⟩
    · obtain ⟨pre, mid, post, hblocks, hfirst, hlast, hstands⟩ := ih hline
      refine ⟨[block] ++ pre, mid, post, by rw [hblocks]; rfl, ?_, hlast, hstands.append ?_⟩
      · rw [hfirst, List.singleton_append, List.length_cons, Nat.mul_succ]
        omega
      · rintro - - _ ⟨⟩
        exact hblock
  | @filler first n blocks lines hn hnext h ih =>
    rcases List.mem_cons.1 hline with rfl | hline
    · have hpos : 0 < bytesPerRow * n := Nat.mul_pos (by decide) hn
      refine ⟨[], List.replicate n zeroBlock, blocks, rfl, rfl, ?_, ?_,
        fun _ => ⟨?_, nofun, hnext⟩, nofun⟩
      · rw [List.length_replicate]
        show first + bytesPerRow * n - 1 + 1 = first + bytesPerRow * n
        omega
      · exact mt (List.replicate_eq_nil_iff _).1 (Nat.ne_of_gt hn)
      · intro block hblock
        rw [List.eq_of_mem_replicate hblock]
        exact isZero_zeroBlock
    · obtain ⟨pre, mid, post, hblocks, hfirst, hlast, hstands⟩ := ih hline
      refine ⟨List.replicate n zeroBlock ++ pre, mid, post, ?_, ?_, hlast,
        hstands.append fun hfiller hpre => ?_⟩
      · rw [hblocks, List.append_assoc, List.append_assoc, List.append_assoc]
      · rw [hfirst, List.length_append, List.length_replicate, Nat.mul_add, Nat.add_assoc]
      · -- the blocks that follow do not begin with zeros, but this line does
        obtain ⟨block, mid, rfl⟩ := List.exists_cons_of_ne_nil hstands.ne_nil
        rw [hblocks, hpre] at hnext
        exact absurd ((hstands.filler hfiller).1 block (List.mem_cons_self ..)) (hnext block rfl)

/-! ## The bytes of a line -/

theorem length_flatten {blocks : List (List UInt8)}
    (hblocks : ∀ block ∈ blocks, block.length = bytesPerRow) :
    blocks.flatten.length = bytesPerRow * blocks.length := by
  rw [List.length_flatten, List.map_congr_left hblocks, List.map_const', List.sum_replicate_nat,
    Nat.mul_comm]

/-- Whole blocks are a stretch of the bytes. -/
theorem stretch_flatten {pre mid post : List (List UInt8)}
    (hblocks : ∀ block ∈ pre ++ mid ++ post, block.length = bytesPerRow) :
    stretch (pre ++ mid ++ post).flatten (bytesPerRow * pre.length) (bytesPerRow * mid.length) =
      mid.flatten := by
  have hpre : ∀ block ∈ pre, block.length = bytesPerRow := fun block h =>
    hblocks block (List.mem_append_left _ (List.mem_append_left _ h))
  have hmid : ∀ block ∈ mid, block.length = bytesPerRow := fun block h =>
    hblocks block (List.mem_append_left _ (List.mem_append_right _ h))
  rw [stretch, List.flatten_append, List.flatten_append, List.append_assoc,
    List.drop_left' (length_flatten hpre), List.take_left' (length_flatten hmid)]

/-- So is one of them. -/
theorem stretch_block {pre post : List (List UInt8)} {block : List UInt8}
    (hblocks : ∀ b ∈ pre ++ [block] ++ post, b.length = bytesPerRow) :
    stretch (pre ++ [block] ++ post).flatten (bytesPerRow * pre.length) bytesPerRow = block :=
  (stretch_flatten hblocks).trans (List.append_nil block)

theorem isZero_flatten {blocks : List (List UInt8)} :
    IsZero blocks.flatten ↔ ∀ block ∈ blocks, IsZero block := by
  simp only [IsZero, List.mem_flatten]
  exact ⟨fun h block hblock b hb => h b ⟨block, hblock, hb⟩,
    fun h b ⟨block, hblock, hb⟩ => h block hblock b hb⟩

namespace MemoryLine.Stands

variable {line : MemoryLine} {pre mid post : List (List UInt8)}

/-- Filler stands for zeros, and no other line does. -/
theorem filler_iff (h : line.Stands pre mid post) : line.words? = none ↔ IsZero mid.flatten := by
  rw [isZero_flatten]
  refine ⟨fun hnone => (h.filler hnone).1, fun hzero => ?_⟩
  refine Option.eq_none_iff_forall_ne_some.2 fun words hwords => ?_
  obtain ⟨block, rfl, hblock, -⟩ := h.words words hwords
  exact hblock (hzero block (List.mem_singleton_self block))

/-- The block before filler is not all zero. -/
theorem before (h : line.Stands pre mid post) (hnone : line.words? = none)
    (hblocks : ∀ block ∈ pre ++ mid ++ post, block.length = bytesPerRow) (hpre : pre ≠ []) :
    ¬ IsZero (stretch (pre ++ mid ++ post).flatten (bytesPerRow * pre.length - bytesPerRow)
      bytesPerRow) := by
  obtain ⟨-, hlast, -⟩ := h.filler hnone
  obtain ⟨front, block, rfl⟩ := (List.eq_nil_or_concat pre).resolve_left hpre
  rw [List.concat_eq_append] at hblocks hlast ⊢
  rw [List.append_assoc] at hblocks ⊢
  rw [List.length_append, List.length_singleton, Nat.mul_succ, Nat.add_sub_cancel,
    stretch_block hblocks]
  exact hlast block List.getLast?_concat

/-- The block behind filler is not all zero. -/
theorem behind (h : line.Stands pre mid post) (hnone : line.words? = none)
    (hblocks : ∀ block ∈ pre ++ mid ++ post, block.length = bytesPerRow) (hpost : post ≠ []) :
    ¬ IsZero (stretch (pre ++ mid ++ post).flatten (bytesPerRow * (pre ++ mid).length)
      bytesPerRow) := by
  obtain ⟨-, -, hnext⟩ := h.filler hnone
  obtain ⟨block, rest, rfl⟩ := List.exists_cons_of_ne_nil hpost
  rw [List.append_cons] at hblocks ⊢
  rw [stretch_block hblocks]
  exact hnext block rfl

end MemoryLine.Stands

/-- The lines over blocks partition the bytes of the blocks. -/
theorem LinesOver.partition {blocks : List (List UInt8)} {lines : List MemoryLine}
    (hblocks : ∀ block ∈ blocks, block.length = bytesPerRow) (h : LinesOver 0 blocks lines) :
    Partition blocks.flatten lines where
  nil_iff := by
    have hcount : bytesPerRow = 16 := rfl
    rw [h.nil_iff, ← List.length_eq_zero_iff, ← List.length_eq_zero_iff, length_flatten hblocks,
      hcount]
    omega
  starts _ := h.first_of_mem_head
  follows := h.follows
  ends line hline := by rw [h.ends line hline, Nat.zero_add]
  ordered line hline := by
    obtain ⟨pre, mid, post, -, -, hlast, hstands⟩ := h.exists_stands hline
    have hpos : 0 < bytesPerRow * mid.length :=
      Nat.mul_pos (by decide) (List.length_pos_iff.2 hstands.ne_nil)
    omega
  filler_iff line hline := by
    obtain ⟨pre, mid, post, rfl, hfirst, hlast, hstands⟩ := h.exists_stands hline
    rw [hlast, hfirst, Nat.add_sub_cancel_left, Nat.zero_add, stretch_flatten hblocks]
    exact hstands.filler_iff
  maximal line hline hnone := by
    obtain ⟨pre, mid, post, rfl, hfirst, hlast, hstands⟩ := h.exists_stands hline
    rw [Nat.zero_add] at hfirst
    rw [hfirst, ← Nat.mul_add, ← List.length_append] at hlast
    rw [hfirst, hlast]
    refine ⟨⟨_, rfl⟩, ⟨_, rfl⟩, fun hpos => ?_, fun hlt => ?_⟩
    · have hpre : pre ≠ [] := List.length_pos_iff.1 (Nat.pos_of_mul_pos_left hpos)
      exact hstands.before hnone hblocks hpre
    · refine hstands.behind hnone hblocks ?_
      rintro rfl
      rw [List.append_nil] at hlt hblocks
      exact absurd (length_flatten hblocks) (Nat.ne_of_gt hlt)
  apart := h.apart
  words line hline words hwords := by
    obtain ⟨pre, mid, post, rfl, hfirst, hlast, hstands⟩ := h.exists_stands hline
    obtain ⟨block, rfl, -, rfl⟩ := hstands.words words hwords
    have hblock : block.length = bytesPerRow := hblocks block (by simp)
    rw [hfirst, Nat.zero_add]
    refine ⟨?_, by rw [length_wordsOf, hblock]; rfl, ?_⟩
    · have hcount : bytesPerRow * [block].length = 16 := rfl
      omega
    · rw [flatMap_bytes_wordsOf ⟨8, hblock⟩]
      exact (stretch_block hblocks).symm
  expand := h.flatMap_expand

/-! ## The table -/

section Table

variable {bytes : List UInt8}

/-- The lines of the table of a memory. -/
def memoryLines (bytes : List UInt8) : List MemoryLine :=
  (memoryRows 0 (Layout.rows bytesPerRow bytes)).map MemoryRow.line

theorem ofMemory_eq (h : bytesPerRow ∣ bytes.length) :
    ofMemory bytes = "\n".intercalate ((memoryLines bytes).map MemoryLine.text) := by
  have hblocks : ∀ block ∈ Layout.rows bytesPerRow bytes, block.length = bytesPerRow :=
    fun _ => Layout.length_of_mem_rows (by decide) h
  rw [ofMemory, Layout.stack, memoryLines, List.map_map]
  refine congrArg _ (List.map_congr_left fun row hrow => ?_)
  exact (MemoryRow.text_line (within_of_mem hblocks (Nat.le_refl _) hrow)).symm

theorem readTable?_ofMemory (h : bytesPerRow ∣ bytes.length) :
    readTable? (ofMemory bytes) = some (memoryLines bytes) := by
  rw [ofMemory_eq h]
  exact readTable?_stack (memoryLines bytes)

theorem partition_memoryLines (h : bytesPerRow ∣ bytes.length) :
    Partition bytes (memoryLines bytes) := by
  have hblocks : ∀ block ∈ Layout.rows bytesPerRow bytes, block.length = bytesPerRow :=
    fun _ => Layout.length_of_mem_rows (by decide) h
  have hpartition := LinesOver.partition hblocks (linesOver_memoryRows hblocks)
  rwa [Layout.flatten_rows] at hpartition

end Table

end Table

namespace Machine

variable {m : Machine}

/-- A section stands in the overview. -/
theorem exists_overview_eq {heading body : String} (h : (heading, body) ∈ m.sections) :
    ∃ before after, m.overview = before ++ sectionText heading body ++ after := by
  obtain ⟨front, rest, hsections⟩ := List.append_of_mem h
  refine ⟨"Chipset \x7b\n" ++ String.join (front.map fun s => sectionText s.1 s.2),
    String.join (rest.map fun s => sectionText s.1 s.2) ++ "\x7d", ?_⟩
  rw [overview, hsections, List.map_append, List.map_cons, String.join_append, String.join_cons]
  simp only [String.append_assoc]

/-- The table of the memory stands in the overview. -/
theorem exists_overview_eq_memory (m : Machine) : ∃ before after,
    m.overview =
      before ++ ("\tMemory :\n" ++ Table.ofMemory m.memory.toList ++ "\n") ++ after := by
  have hheading : "\t" ++ "Memory" ++ " :\n" = "\tMemory :\n" := by decide
  have hmem : ("Memory", Table.ofMemory m.memory.toList) ∈ m.sections := by simp [sections]
  obtain ⟨before, after, h⟩ := exists_overview_eq hmem
  rw [sectionText, hheading] at h
  exact ⟨before, after, h⟩

/-- **The table of the memory partitions the memory.** What is read in the table of a memory of whole
blocks are the lines that were printed. Their ranges are in order and leave no gap from the first
byte to the last. Lines with filler stand for the longest runs of blocks of zeros, and each of the
others for one block with a byte that is not zero, of which it shows the eight words. So the lines
tell every byte. The section of the memory in the overview of a machine is such a table. -/
theorem memory_partitioned :
    (∀ bytes : List UInt8, 16 ∣ bytes.length → ∃ lines,
      Table.ofMemory bytes = "\n".intercalate (lines.map Table.MemoryLine.text) ∧
      Table.readTable? (Table.ofMemory bytes) = some lines ∧
      Table.Partition bytes lines) ∧
    ∀ m : Machine, m.memory.toList.length = 4096 ∧ ∃ before after,
      m.overview = before ++ ("\tMemory :\n" ++ Table.ofMemory m.memory.toList ++ "\n") ++ after :=
  ⟨fun bytes h => ⟨Table.memoryLines bytes, Table.ofMemory_eq h, Table.readTable?_ofMemory h,
    Table.partition_memoryLines h⟩,
    fun m => ⟨Bank.length_toList m.memory, exists_overview_eq_memory m⟩⟩

/-- Two blocks of zeros, one that ends with another byte, and one more of zeros. -/
theorem memory_partitioned_run :
    16 ∣ (List.replicate 32 0 ++ (List.replicate 15 0 ++ [0xFF]) ++ List.replicate 16 0 :
      List UInt8).length ∧
    Table.Partition (List.replicate 32 0 ++ (List.replicate 15 0 ++ [0xFF]) ++ List.replicate 16 0)
      [⟨0, 31, none⟩, ⟨32, 47, some [0, 0, 0, 0, 0, 0, 0, 0xFF]⟩, ⟨48, 63, none⟩] := by
  have hblocks : 16 ∣ (List.replicate 32 0 ++ (List.replicate 15 0 ++ [0xFF]) ++
      List.replicate 16 0 : List UInt8).length := by decide
  obtain ⟨lines, -, hread, hpartition⟩ := memory_partitioned.1 _ hblocks
  obtain rfl := Option.some.inj ((Table.readTable?_ofMemory hblocks).symm.trans hread)
  have hlines : Table.memoryLines
      (List.replicate 32 0 ++ (List.replicate 15 0 ++ [0xFF]) ++ List.replicate 16 0) =
        [⟨0, 31, none⟩, ⟨32, 47, some [0, 0, 0, 0, 0, 0, 0, 0xFF]⟩, ⟨48, 63, none⟩] := by
    simp [Table.memoryLines, Layout.rows, List.replicate, Table.memoryRows,
      Table.isNull, Table.rowWords, Table.wordsOf, Table.bytesPerRow, Table.rowSize, wordSize]
    decide
  exact ⟨hblocks, hlines ▸ hpartition⟩

end Machine

end SpriteVM
