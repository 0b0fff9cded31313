import SpriteVM.Proofs.Tables

/-!
# The table of the memory tells the memory

The table has as many rows as it takes, since rows of zeros are merged.

* The words of a full row tell its bytes (`wordsOf_inj`), and they are zero just when the bytes are
  (`isNull_iff`).
* The rows tell the bytes (`flatMap_contents`).
* The text of a row tells the row (`tells_memoryRow`), in particular the first number of its range.
  Only the first row begins with the first byte (`lt_first_of_mem_tail`), so the table tells how many
  rows it has.
-/

namespace SpriteVM.Table

open Numeral

/-! ## The words of a block -/

/-- A word tells its bytes. -/
theorem ofBytes_inj {high low high' low' : UInt8}
    (h : Word.ofBytes high low = Word.ofBytes high' low') : high = high' ∧ low = low' := by
  have hnat := congrArg UInt16.toNat h
  rw [Word.toNat_ofBytes, Word.toNat_ofBytes] at hnat
  have hlow := low.toNat_lt
  have hlow' := low'.toNat_lt
  exact ⟨UInt8.toNat_inj.1 (by omega), UInt8.toNat_inj.1 (by omega)⟩

theorem ofBytes_eq_zero {high low : UInt8} : Word.ofBytes high low = 0 ↔ high = 0 ∧ low = 0 := by
  have hzero : Word.ofBytes 0 0 = 0 := by decide
  refine ⟨fun h => ofBytes_inj (h.trans hzero.symm), ?_⟩
  rintro ⟨rfl, rfl⟩
  exact hzero

/-- A list that does not begin with two bytes has at most one. -/
theorem length_lt_two_of_short {bs : List UInt8}
    (h : ∀ high low rest, bs ≠ high :: low :: rest) : bs.length < 2 := by
  match bs with
  | [] => exact Nat.zero_lt_two
  | [_] => exact Nat.one_lt_two
  | high :: low :: rest => exact (h high low rest rfl).elim

theorem eq_nil_of_short {bs : List UInt8} (h : ∀ high low rest, bs ≠ high :: low :: rest)
    (heven : 2 ∣ bs.length) : bs = [] := by
  have hlength := length_lt_two_of_short h
  exact List.length_eq_zero_iff.1 (by omega)

/-- Words tell their bytes when no byte is left over. -/
theorem wordsOf_inj {bs cs : List UInt8} (heven : 2 ∣ bs.length) (hlength : bs.length = cs.length)
    (h : wordsOf bs = wordsOf cs) : bs = cs := by
  induction bs using wordsOf.induct generalizing cs with
  | case1 high low rest ih =>
    match cs with
    | [] | [_] => simp at hlength
    | high' :: low' :: rest' =>
      rw [wordsOf, wordsOf] at h
      obtain ⟨hword, hrest⟩ := List.cons.inj h
      obtain ⟨rfl, rfl⟩ := ofBytes_inj hword
      simp only [List.length_cons] at hlength heven
      rw [ih (by omega) (by omega) hrest]
  | case2 bs hshort =>
    obtain rfl := eq_nil_of_short hshort heven
    exact (List.length_eq_zero_iff.1 hlength.symm).symm

theorem length_wordsOf (bs : List UInt8) : (wordsOf bs).length = bs.length / 2 := by
  fun_induction wordsOf bs with
  | case1 high low rest ih =>
    simp only [List.length_cons, ih]
    omega
  | case2 bs hshort => exact (Nat.div_eq_of_lt (length_lt_two_of_short hshort)).symm

/-- A full row has no free places. -/
theorem rowWords_eq {block : List UInt8} (h : block.length = bytesPerRow) :
    rowWords block = wordsOf block := by
  have hcount : rowSize - (wordsOf block).length = 0 := by
    rw [length_wordsOf, h]
    rfl
  rw [rowWords, hcount, List.replicate_zero, List.append_nil]

/-- The words are zero when the bytes are, and no byte is left over. -/
theorem forall_wordsOf_eq_zero {bs : List UInt8} (h : 2 ∣ bs.length) :
    (∀ w ∈ wordsOf bs, w = 0) ↔ ∀ b ∈ bs, b = 0 := by
  fun_induction wordsOf bs with
  | case1 high low rest ih =>
    rw [List.length_cons, List.length_cons] at h
    rw [List.forall_mem_cons, List.forall_mem_cons, List.forall_mem_cons, ih (by omega),
      ofBytes_eq_zero, and_assoc]
  | case2 bs hshort =>
    obtain rfl := eq_nil_of_short hshort h
    exact iff_of_true nofun nofun

/-- A full row shows nothing but zeros when all its bytes are zero. -/
theorem isNull_iff {block : List UInt8} (h : block.length = bytesPerRow) :
    isNull block = true ↔ ∀ b ∈ block, b = 0 := by
  rw [isNull, rowWords_eq h, List.all_eq_true]
  simp only [beq_iff_eq]
  exact forall_wordsOf_eq_zero ⟨8, h⟩

theorem eq_replicate_of_isNull {block : List UInt8} (h : block.length = bytesPerRow)
    (hnull : isNull block = true) : block = List.replicate block.length 0 :=
  List.eq_replicate_iff.2 ⟨rfl, (isNull_iff h).1 hnull⟩

/-! ## Rows over blocks -/

namespace MemoryRow

/-- The address of the first byte of a row. -/
def first : MemoryRow → Nat
  | .zeros first _ | .bytes first _ => first

/-- The bytes that a row stands for. -/
def contents : MemoryRow → List UInt8
  | .zeros first last => List.replicate (last + 1 - first) 0
  | .bytes _ contents => contents

/-- A row covers a range below a limit, and the bytes of one that is not merged fill it. -/
def Within (limit : Nat) : MemoryRow → Prop
  | .zeros first last => first ≤ last ∧ last < limit
  | .bytes first contents => contents.length = bytesPerRow ∧ first + bytesPerRow ≤ limit

end MemoryRow

variable {first limit : Nat} {block : List UInt8} {blocks : List (List UInt8)} {row : MemoryRow}

/-- The ways for a block to come into the rows. -/
inductive MemoryRows (first : Nat) (block : List UInt8) (rest : List (List UInt8)) : Prop where
  /-- a block with a word that is not zero is a row -/
  | bytes (hrows : memoryRows first (block :: rest) =
      .bytes first block :: memoryRows (first + block.length) rest)
  /-- a block of zeros is a row of zeros -/
  | zeros (hblock : isNull block = true)
      (hrows : memoryRows first (block :: rest) =
        .zeros first (first + block.length - 1) :: memoryRows (first + block.length) rest)
  /-- a block of zeros joins the row of zeros that follows it -/
  | joined {next last : Nat} {rows : List MemoryRow} (hblock : isNull block = true)
      (hrest : memoryRows (first + block.length) rest = .zeros next last :: rows)
      (hrows : memoryRows first (block :: rest) = .zeros first last :: rows)

/-- Every block comes into the rows in one of these ways. -/
theorem memoryRows_cons (first : Nat) (block : List UInt8) (rest : List (List UInt8)) :
    MemoryRows first block rest := by
  by_cases h : isNull block = true
  · cases hrest : memoryRows (first + block.length) rest with
    | nil => exact .zeros h (by rw [memoryRows, hrest]; simp [h])
    | cons row rows =>
      cases row with
      | zeros next last => exact .joined h hrest (by rw [memoryRows, hrest]; simp [h])
      | bytes next contents => exact .zeros h (by rw [memoryRows, hrest]; simp [h])
  · exact .bytes (by rw [memoryRows]; simp [h])

/-- The first row begins with the first byte. -/
theorem first_of_mem_head (h : row ∈ (memoryRows first blocks).head?) : row.first = first := by
  cases blocks with
  | nil => cases h
  | cons block rest =>
    cases memoryRows_cons first block rest with
    | bytes hrows | zeros _ hrows | joined _ _ hrows =>
      rw [hrows] at h
      cases h
      rfl

theorem le_first_of_mem (h : row ∈ memoryRows first blocks) : first ≤ row.first := by
  induction blocks generalizing first with
  | nil => cases h
  | cons block rest ih =>
    have hle : first ≤ first + block.length := Nat.le_add_right ..
    cases memoryRows_cons first block rest with
    | bytes hrows | zeros _ hrows =>
      rw [hrows] at h
      rcases List.mem_cons.1 h with rfl | h
      · exact Nat.le_refl first
      · exact Nat.le_trans hle (ih h)
    | joined _ hrest hrows =>
      rw [hrows] at h
      rcases List.mem_cons.1 h with rfl | h
      · exact Nat.le_refl first
      · exact Nat.le_trans hle (ih (hrest ▸ List.mem_cons_of_mem _ h))

/-- No other row begins with the first byte. -/
theorem lt_first_of_mem_tail (hblocks : ∀ block ∈ blocks, block.length = bytesPerRow)
    (h : row ∈ (memoryRows first blocks).tail) : first < row.first := by
  cases blocks with
  | nil => cases h
  | cons block rest =>
    have hlt : first < first + block.length := by
      rw [hblocks block (List.mem_cons_self ..)]
      exact Nat.lt_add_of_pos_right (by decide)
    cases memoryRows_cons first block rest with
    | bytes hrows | zeros _ hrows =>
      rw [hrows] at h
      exact Nat.lt_of_lt_of_le hlt (le_first_of_mem h)
    | joined _ hrest hrows =>
      rw [hrows] at h
      exact Nat.lt_of_lt_of_le hlt (le_first_of_mem (hrest ▸ List.mem_cons_of_mem _ h))

/-- A row of zeros that follows a block begins behind it. -/
theorem eq_of_memoryRows_eq_cons {next last : Nat} {rows : List MemoryRow}
    (h : memoryRows first blocks = .zeros next last :: rows) : next = first := by
  have hrow : MemoryRow.zeros next last ∈ (memoryRows first blocks).head? := by
    rw [h]
    rfl
  exact first_of_mem_head hrow

/-- All rows lie below the end of the blocks. -/
theorem within_of_mem (hblocks : ∀ block ∈ blocks, block.length = bytesPerRow)
    (hlimit : first + blocks.flatten.length ≤ limit) (h : row ∈ memoryRows first blocks) :
    row.Within limit := by
  induction blocks generalizing first row with
  | nil => cases h
  | cons block rest ih =>
    obtain ⟨hblock, hblocks⟩ := List.forall_mem_cons.1 hblocks
    rw [List.flatten_cons, List.length_append, ← Nat.add_assoc] at hlimit
    have hrest : ∀ row ∈ memoryRows (first + block.length) rest, row.Within limit :=
      fun row => ih hblocks hlimit
    have hle : first + block.length ≤ limit := Nat.le_trans (Nat.le_add_right ..) hlimit
    have hpos : 0 < block.length := hblock ▸ Nat.succ_pos _
    cases memoryRows_cons first block rest with
    | bytes hrows =>
      rw [hrows] at h
      rcases List.mem_cons.1 h with rfl | h
      · exact ⟨hblock, hblock ▸ hle⟩
      · exact hrest row h
    | zeros _ hrows =>
      rw [hrows] at h
      rcases List.mem_cons.1 h with rfl | h
      · exact ⟨by omega, by omega⟩
      · exact hrest row h
    | @joined next last rows _ hnext hrows =>
      rw [hrows] at h
      rw [hnext] at hrest
      obtain ⟨⟨hnextlast, hlast⟩, hrows⟩ := List.forall_mem_cons.1 hrest
      obtain rfl := eq_of_memoryRows_eq_cons hnext
      rcases List.mem_cons.1 h with rfl | h
      · exact ⟨Nat.le_trans (Nat.le_add_right ..) hnextlast, hlast⟩
      · exact hrows row h

/-- The rows stand for the bytes of the blocks. -/
theorem flatMap_contents (hblocks : ∀ block ∈ blocks, block.length = bytesPerRow) :
    (memoryRows first blocks).flatMap MemoryRow.contents = blocks.flatten := by
  induction blocks generalizing first with
  | nil => rfl
  | cons block rest ih =>
    obtain ⟨hblock, hblocks⟩ := List.forall_mem_cons.1 hblocks
    have hrest : (memoryRows (first + block.length) rest).flatMap MemoryRow.contents =
        rest.flatten := ih hblocks
    cases memoryRows_cons first block rest with
    | bytes hrows => rw [hrows, List.flatMap_cons, hrest, MemoryRow.contents, List.flatten_cons]
    | zeros hzero hrows =>
      have hcount : first + block.length - 1 + 1 - first = block.length := by
        have hpos : 0 < block.length := hblock ▸ Nat.succ_pos _
        omega
      rw [hrows, List.flatMap_cons, hrest, MemoryRow.contents, hcount,
        ← eq_replicate_of_isNull hblock hzero, List.flatten_cons]
    | @joined next last rows hzero hnext hrows =>
      obtain rfl := eq_of_memoryRows_eq_cons hnext
      obtain ⟨hle, -⟩ : (MemoryRow.zeros (first + block.length) last).Within _ :=
        within_of_mem hblocks (Nat.le_refl _) (hnext ▸ List.mem_cons_self ..)
      have hcount : last + 1 - first = block.length + (last + 1 - (first + block.length)) := by omega
      rw [hnext, List.flatMap_cons, MemoryRow.contents] at hrest
      rw [hrows, List.flatMap_cons, MemoryRow.contents, hcount, ← List.replicate_append_replicate,
        ← eq_replicate_of_isNull hblock hzero, List.append_assoc, hrest, List.flatten_cons]

/-! ## Rows as texts -/

/-- A word as an entry of a row. -/
def wordEntry (w : Word) : String :=
  " " ++ addressText w.toNat

theorem length_wordEntry (w : Word) : (wordEntry w).length = 7 := by
  rw [wordEntry, addressText, hex, String.length_append, String.length_append,
    length_hexDigits (by decide) w.toNat_lt]
  rfl

theorem length_join_wordEntry (ws : List Word) :
    (String.join (ws.map wordEntry)).length = 7 * ws.length := by
  induction ws with
  | nil => rfl
  | cons w ws ih =>
    rw [List.map_cons, String.join_cons, String.length_append, length_wordEntry, ih,
      List.length_cons]
    omega

/-- There are no dots in words. -/
theorem dot_notMem_wordEntry (w : Word) : '.' ∉ (wordEntry w).toList := by
  rw [wordEntry, addressText, hex, String.toList_append, String.toList_append, List.mem_append,
    List.mem_append, not_or, not_or]
  exact ⟨by decide, by decide, notMem_hexDigits rfl⟩

/-- Filler is as wide as eight words, but it has dots. -/
theorem tells_zeroFiller {ws : List Word} (h : ws.length = 8) :
    Tells (" " ++ zeroFiller) (String.join (ws.map wordEntry)) False := by
  refine Tells.of_length ?_ ?_
  · rw [length_join_wordEntry, h]
    decide
  · intro heq
    have hdot : '.' ∈ (" " ++ zeroFiller).toList := by decide
    rw [heq, String.toList_join, List.flatMap_map] at hdot
    obtain ⟨w, -, hw⟩ := List.mem_flatMap.1 hdot
    exact dot_notMem_wordEntry w hw

theorem tells_words {ws ws' : List Word} (h : ws.length = ws'.length) :
    Tells (String.join (ws.map wordEntry)) (String.join (ws'.map wordEntry)) (ws = ws') := by
  refine Tells.join h fun w _ w' _ => ?_
  exact ((Tells.addressText w.toNat_lt w'.toNat_lt).of_imp UInt16.toNat_inj.1).before " "

theorem text_bytes {first : Nat} {contents : List UInt8} (h : contents.length = bytesPerRow) :
    (MemoryRow.bytes first contents).text =
      indent ++ rangeText first (first + 15) ++
        String.join ((wordsOf contents).map wordEntry) := by
  rw [MemoryRow.text, rowWords_eq h, h]
  rfl

theorem text_zeros (first last : Nat) :
    (MemoryRow.zeros first last).text = indent ++ rangeText first last ++ (" " ++ zeroFiller) := by
  rw [MemoryRow.text, String.append_assoc]

/-- The text of a row tells the row. -/
theorem tells_memoryRow {row row' : MemoryRow} (h : row.Within memorySize)
    (h' : row'.Within memorySize) : Tells row.text row'.text (row = row') := by
  have hlimit : memorySize < 0x10000 := by decide
  have hcount : bytesPerRow = 16 := rfl
  cases row with
  | zeros first last =>
    obtain ⟨hle, hlast⟩ := h
    cases row' with
    | zeros first' last' =>
      obtain ⟨hle', hlast'⟩ := h'
      have hrange : Tells (rangeText first last) (rangeText first' last')
          (first = first' ∧ last = last') :=
        tells_rangeText (by omega) (by omega) (by omega) (by omega)
      rw [text_zeros, text_zeros]
      refine ((hrange.before indent).after _).of_imp ?_
      rintro ⟨rfl, rfl⟩
      rfl
    | bytes first' contents' =>
      have hwords : (wordsOf contents').length = 8 := by rw [length_wordsOf, h'.1, hcount]
      rw [text_zeros, text_bytes h'.1]
      exact Tells.of_ends _ _ (tells_zeroFiller hwords)
  | bytes first contents =>
    obtain ⟨hlength, hfirst⟩ := h
    have hwords : (wordsOf contents).length = 8 := by rw [length_wordsOf, hlength, hcount]
    cases row' with
    | zeros first' last' =>
      rw [text_zeros, text_bytes hlength]
      exact Tells.of_ends _ _ (tells_zeroFiller hwords).symm
    | bytes first' contents' =>
      obtain ⟨hlength', hfirst'⟩ := h'
      have hwords' : (wordsOf contents').length = 8 := by rw [length_wordsOf, hlength', hcount]
      have hrange : Tells (rangeText first (first + 15)) (rangeText first' (first' + 15))
          (first = first' ∧ first + 15 = first' + 15) :=
        tells_rangeText (by omega) (by omega) (by omega) (by omega)
      have hentries := tells_words (hwords.trans hwords'.symm)
      rw [text_bytes hlength, text_bytes hlength']
      refine ((hrange.before indent).append hentries).of_imp ?_
      rintro ⟨⟨rfl, -⟩, hsame⟩
      rw [wordsOf_inj ⟨8, hlength⟩ (hlength.trans hlength'.symm) hsame]

/-! ## The table -/

section Table

variable {bs cs : List UInt8}

theorem length_of_mem_blocks (h : bs.length = memorySize) :
    ∀ block ∈ Layout.rows bytesPerRow bs, block.length = bytesPerRow :=
  fun _ => Layout.length_of_mem_rows (by decide) (h ▸ by decide)

/-- The rows of the table stand for the memory. -/
theorem flatMap_contents_rows (h : bs.length = memorySize) :
    (memoryRows 0 (Layout.rows bytesPerRow bs)).flatMap MemoryRow.contents = bs :=
  (flatMap_contents (length_of_mem_blocks h)).trans (Layout.flatten_rows bytesPerRow bs)

theorem within_of_mem_rows (h : bs.length = memorySize) :
    ∀ row ∈ memoryRows 0 (Layout.rows bytesPerRow bs), row.Within memorySize := by
  intro row hrow
  refine within_of_mem (length_of_mem_blocks h) (Nat.le_of_eq ?_) hrow
  rw [Nat.zero_add, Layout.flatten_rows, h]

theorem memoryRows_ne_nil (h : bs.length = memorySize) :
    memoryRows 0 (Layout.rows bytesPerRow bs) ≠ [] := by
  intro hnil
  have hbytes := flatMap_contents_rows h
  rw [hnil, List.flatMap_nil] at hbytes
  rw [← hbytes] at h
  cases h

/-- The first row of a table is no later row of one. -/
theorem notMem_tail_rows {row : MemoryRow} (h : cs.length = memorySize)
    (hrow : row ∈ (memoryRows 0 (Layout.rows bytesPerRow bs)).head?) :
    row ∉ (memoryRows 0 (Layout.rows bytesPerRow cs)).tail := by
  intro htail
  have hlt := lt_first_of_mem_tail (length_of_mem_blocks h) htail
  rw [first_of_mem_head hrow] at hlt
  exact Nat.lt_irrefl 0 hlt

/-- The table of a memory tells the memory. -/
theorem tells_ofMemory (hbs : bs.length = memorySize) (hcs : cs.length = memorySize) :
    Tells (ofMemory bs) (ofMemory cs) (bs = cs) := by
  have hrows : ∀ row ∈ memoryRows 0 (Layout.rows bytesPerRow bs),
      ∀ row' ∈ memoryRows 0 (Layout.rows bytesPerRow cs), Tells row.text row'.text (row = row') :=
    fun row hrow row' hrow' =>
      tells_memoryRow (within_of_mem_rows hbs row hrow) (within_of_mem_rows hcs row' hrow')
  refine (Tells.stack (memoryRows_ne_nil hbs) (memoryRows_ne_nil hcs) hrows
    (fun _ => notMem_tail_rows hcs) (fun _ => notMem_tail_rows hbs)).of_imp ?_
  intro hsame
  rw [← flatMap_contents_rows hbs, hsame, flatMap_contents_rows hcs]

end Table

end SpriteVM.Table
