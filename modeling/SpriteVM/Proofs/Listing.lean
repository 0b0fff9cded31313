import SpriteVM.Console.Response
import SpriteVM.Proofs.Reachable

/-!
# Listings of memory

A listing has one entry for each word that exists from its first address on, up to the number that
was asked for: `listing_eq` gives it as a list over a range. Off memory there is no word, so no
listing goes there, whatever is asked for.

A shown entry ends in an arrow when its word comes next. No entry has such an arrow of its own, as an
instruction in assembler syntax has few characters (`Instruction.spelled_mnemonic`); so the arrows
in a shown listing point out the program counter and nothing else (`listing_exact`).
-/

namespace SpriteVM

open Numeral

/-! ## The characters of an entry -/

/-- A character of assembler text. -/
def isSpelling (c : Char) : Bool :=
  c.isUpper || c.isDigit || ['x', ',', ' ', '[', ']'].contains c

/-- All characters of a text are characters of assembler text. -/
def Spelled (s : String) : Prop :=
  ∀ c ∈ s.toList, isSpelling c

instance (s : String) : Decidable (Spelled s) :=
  decidable_of_iff (s.toList.all isSpelling = true) List.all_eq_true

theorem Spelled.append {s t : String} (hs : Spelled s) (ht : Spelled t) : Spelled (s ++ t) := by
  intro c hc
  rw [String.toList_append] at hc
  exact (List.mem_append.1 hc).elim (hs c) (ht c)

theorem spelled_padded {base : Nat} (hb : 2 ≤ base) (hb' : base ≤ 16) (width n : Nat) :
    Spelled (String.ofList (padded base width n)) := by
  intro c hc
  rw [String.toList_ofList] at hc
  obtain ⟨d, hd, rfl⟩ := exists_digit_of_mem_padded hb hc
  have all : ∀ e ∈ List.range 16, isSpelling (digitChar e) := by decide
  exact all d (List.mem_range.2 (Nat.lt_of_lt_of_le hd hb'))

theorem spelled_hex (width n : Nat) : Spelled (hex width n) :=
  (by decide : Spelled "0x").append (spelled_padded (by decide) (by decide) width n)

theorem spelled_registerName (x : Nat) : Spelled (registerName x) :=
  (by decide : Spelled "V").append (spelled_padded (by decide) (by decide) 1 x)

theorem spelled_twoOperands {name first second : String} (hname : Spelled name)
    (hfirst : Spelled first) (hsecond : Spelled second) :
    Spelled (twoOperands name first second) :=
  (((hname.append (by decide)).append hfirst).append (by decide)).append hsecond

theorem Condition.spelled_mnemonic (c : Condition) : Spelled c.mnemonic := by
  cases c with
  | equalByte x kk | unequalByte x kk =>
    exact spelled_twoOperands (by decide) (spelled_registerName x) (spelled_hex 2 _)
  | equal x y | unequal x y =>
    exact spelled_twoOperands (by decide) (spelled_registerName x) (spelled_registerName y)
  | keyDown x | keyUp x => exact Spelled.append (by decide) (spelled_registerName x)

theorem Alu.spelled_mnemonic (op : Alu) (x y : Nat) : Spelled (op.mnemonic x y) := by
  cases op with
  | shiftRight | shiftLeft => exact Spelled.append (by decide) (spelled_registerName x)
  | _ => exact spelled_twoOperands (by decide) (spelled_registerName x) (spelled_registerName y)

/-- There are no other characters in an instruction. -/
theorem Instruction.spelled_mnemonic (i : Instruction) : Spelled i.mnemonic := by
  cases i with
  | clear | ret => decide
  | sys nnn | jump nnn | call nnn => exact Spelled.append (by decide) (spelled_hex 4 nnn)
  | skip c => exact c.spelled_mnemonic
  | combine op x y => exact op.spelled_mnemonic x y
  | jumpOffset nnn | loadIndex nnn =>
    exact spelled_twoOperands (by decide) (by decide) (spelled_hex 4 nnn)
  | loadByte x kk | addByte x kk | random x kk =>
    exact spelled_twoOperands (by decide) (spelled_registerName x) (spelled_hex 2 _)
  | readDelay x | waitKey x | loadRegisters x =>
    exact spelled_twoOperands (by decide) (spelled_registerName x) (by decide)
  | addIndex x | loadGlyph x | setDelay x | setSound x | storeDecimal x | storeRegisters x =>
    exact spelled_twoOperands (by decide) (by decide) (spelled_registerName x)
  | draw x y n =>
    have hpair : Spelled (twoOperands "DRW" (registerName x) (registerName y)) :=
      spelled_twoOperands (by decide) (spelled_registerName x) (spelled_registerName y)
    exact (hpair.append (by decide)).append (spelled_padded (by decide) (by decide) 0 n)

theorem ListingEntry.mnemonic_of_some {e : ListingEntry} {i : Instruction}
    (h : e.instruction? = some i) : e.mnemonic = i.mnemonic := by
  rw [mnemonic, h]

theorem ListingEntry.mnemonic_of_none {e : ListingEntry} (h : e.instruction? = none) :
    e.mnemonic = "*** Unknown instruction" := by
  rw [mnemonic, h]

/-- A character that does not belong to assembler text does not stand in an entry, apart from the
wording for a word without instruction. -/
theorem ListingEntry.notMem_text {e : ListingEntry} {c : Char} (hc : isSpelling c = false)
    (hunknown : c ∉ "*** Unknown instruction".toList) : c ∉ e.text.toList := by
  have hspelled : ∀ {s : String}, Spelled s → c ∉ s.toList := by
    intro s hs hmem
    rw [hs c hmem] at hc
    cases hc
  have hmnemonic : c ∉ e.mnemonic.toList := by
    cases h : e.instruction? with
    | some i =>
      rw [mnemonic_of_some h]
      exact hspelled i.spelled_mnemonic
    | none =>
      rw [mnemonic_of_none h]
      exact hunknown
  have hfront : Spelled (addressText e.address ++ " " ++ addressText e.word.toNat ++ " ") :=
    (((spelled_hex 4 _).append (by decide)).append (spelled_hex 4 _)).append (by decide)
  rw [text, String.toList_append, List.mem_append]
  exact not_or.2 ⟨hspelled hfront, hmnemonic⟩

/-! ## The entries of a listing -/

namespace Memory

variable {memory : Memory} {start count : Nat}

/-- The entry of a listing at an address. -/
def entry (memory : Memory) (address : Nat) : ListingEntry :=
  let w := Word.ofBytes (memory.cell address) (memory.cell (address + 1))
  ⟨address, w, Instruction.ofWord? w⟩

/-- The number of words of a listing of up to `count` words from `start` on. -/
def extent (start count : Nat) : Nat :=
  min count ((memorySize - start) / wordSize)

theorem listing_of_le (h : memorySize ≤ start + 1) : Memory.listing memory start count = [] := by
  cases count with
  | zero => rfl
  | succ count => rw [Memory.listing, Word.at?_of_le h]

theorem listing_of_lt (h : start + 1 < memorySize) :
    Memory.listing memory start (count + 1) =
      memory.entry start :: Memory.listing memory (start + wordSize) count := by
  rw [Memory.listing, Word.at?_of_lt h]
  rfl

theorem extent_of_le (h : memorySize ≤ start + 1) : extent start count = 0 := by
  simp only [extent, wordSize]
  omega

theorem extent_succ (h : start + 1 < memorySize) :
    extent start (count + 1) = extent (start + wordSize) count + 1 := by
  simp only [extent, wordSize]
  omega

/-- A listing has the words that exist, one after the other. -/
theorem listing_eq (memory : Memory) (start count : Nat) :
    Memory.listing memory start count =
      (List.range (extent start count)).map fun k => memory.entry (start + 2 * k) := by
  induction count generalizing start with
  | zero => rw [extent, Nat.zero_min]; rfl
  | succ count ih =>
    rcases Nat.lt_or_ge (start + 1) memorySize with h | h
    · rw [listing_of_lt h, ih, extent_succ h, List.range_succ_eq_map, List.map_cons, List.map_map]
      refine congrArg _ (List.map_congr_left fun k _ => congrArg _ ?_)
      simp only [wordSize, Nat.succ_eq_add_one]
      omega
    · rw [listing_of_le h, extent_of_le h]
      rfl

/-- The words of a listing exist. -/
theorem lt_of_lt_extent {k : Nat} (h : k < extent start count) :
    start + 2 * k + 1 < memorySize := by
  simp only [extent, wordSize] at h
  omega

end Memory

/-! ## The arrow -/

/-- A shown line ends in an arrow. -/
def Points (line : String) : Prop :=
  " <<<".toList <:+ line.toList

namespace Machine

variable {m : Machine} {start count : Nat}

/-- The arrow is behind the entry at the program counter. -/
theorem points_markedEntry {e : ListingEntry} : Points (m.markedEntry e) ↔ e.address = m.counter := by
  rw [Points, markedEntry, String.toList_append]
  split
  · next h => exact iff_of_true (List.suffix_append ..) h
  · next h =>
    refine iff_of_false (fun hsuffix => ?_) h
    have hmem : '<' ∈ e.text.toList := by
      have := hsuffix.subset (show '<' ∈ " <<<".toList by decide)
      rwa [String.toList_empty, List.append_nil] at this
    exact ListingEntry.notMem_text (by decide) (by decide) hmem

/-- An entry is shown on one line. -/
theorem lineFeed_notMem_markedEntry (e : ListingEntry) : '\n' ∉ (m.markedEntry e).toList := by
  rw [markedEntry, String.toList_append, List.mem_append]
  refine not_or.2 ⟨ListingEntry.notMem_text (by decide) (by decide), ?_⟩
  split <;> decide

theorem length_listing : (m.listing start count).length = Memory.extent start count := by
  rw [listing, Memory.listing_eq, List.length_map, List.length_range]

theorem getElem?_listing {k : Nat} {e : ListingEntry} :
    (m.listing start count)[k]? = some e ↔
      k < Memory.extent start count ∧ e = m.memory.entry (start + 2 * k) := by
  rw [listing, Memory.listing_eq, List.getElem?_eq_some_iff]
  simp only [List.length_map, List.length_range, List.getElem_map, List.getElem_range, exists_prop,
    eq_comm]

/-- **A listing has exactly the words that exist.** From an address on, whatever it is and however
many words are asked for, the listing has as many words as fit between it and the end of memory, each
two bytes behind the one before. Both bytes of each word are in memory, the high one first, and the
text of the word is its address, the word and the instruction that it is decoded as, or that there is
none. Shown are the entries in their order, one on each line, and the arrow stands at the program
counter and nowhere else. -/
theorem listing_exact (m : Machine) (start count : Nat) :
    (4096 ≤ start → m.listing start count = []) ∧
    (m.listing start count).length = min count ((4096 - start) / 2) ∧
    (∀ k < min count ((4096 - start) / 2), ∃ e high low,
      (m.listing start count)[k]? = some e ∧ e.address = start + 2 * k ∧
      m.memory.get? (start + 2 * k) = some high ∧ m.memory.get? (start + 2 * k + 1) = some low ∧
      e.word.toNat = high.toNat * 256 + low.toNat ∧
      (∀ i, e.instruction? = some i ↔ decode e.word = .ok i) ∧
      e.text = addressText (start + 2 * k) ++ " " ++ addressText e.word.toNat ++ " " ++ e.mnemonic ∧
      (∀ i, decode e.word = .ok i → e.mnemonic = i.mnemonic) ∧
      ∀ error, decode e.word = .error error → e.mnemonic = "*** Unknown instruction") ∧
    ∃ shown, (Command.disassemble start count).respond m = { machine := m, lines := shown } ∧
      shown.length = (m.listing start count).length ∧
      (∀ k e, (m.listing start count)[k]? = some e →
        ∃ line, shown[k]? = some line ∧ '\n' ∉ line.toList ∧
          line = (if e.address = m.counter then e.text ++ " <<<" else e.text) ∧
          (Points line ↔ m.counter = start + 2 * k)) ∧
      ((∃ line ∈ shown, Points line) ↔
        ∃ k < min count ((4096 - start) / 2), m.counter = start + 2 * k) := by
  refine ⟨fun h => Memory.listing_of_le (Nat.le_succ_of_le h), length_listing, fun k hk => ?_,
    m.listingLines start count, rfl, List.length_map _, fun k e he => ?_, ?_, ?_⟩
  · have hlt := Memory.lt_of_lt_extent hk
    exact ⟨_, _, _, getElem?_listing.2 ⟨hk, rfl⟩, rfl, Bank.get?_eq_some (Nat.lt_of_succ_lt hlt),
      Bank.get?_eq_some hlt, Word.toNat_ofBytes _ _, fun _ => decode_eq_ok.symm, rfl,
      fun _ hi => ListingEntry.mnemonic_of_some (decode_eq_ok.1 hi),
      fun _ he => ListingEntry.mnemonic_of_none (decode_eq_error.1 he).1⟩
  · obtain ⟨-, rfl⟩ := getElem?_listing.1 he
    refine ⟨m.markedEntry _, by rw [listingLines, List.getElem?_map, he]; rfl,
      lineFeed_notMem_markedEntry _, ?_, points_markedEntry.trans eq_comm⟩
    rw [markedEntry]
    split
    · rfl
    · exact String.append_empty
  · rintro ⟨line, hline, hpoints⟩
    obtain ⟨e, he, rfl⟩ := List.mem_map.1 hline
    obtain ⟨k, hk⟩ := List.mem_iff_getElem?.1 he
    obtain ⟨hlt, rfl⟩ := getElem?_listing.1 hk
    exact ⟨k, hlt, (points_markedEntry.1 hpoints).symm⟩
  · rintro ⟨k, hk, hcounter⟩
    have he : (m.listing start count)[k]? = some (m.memory.entry (start + 2 * k)) :=
      getElem?_listing.2 ⟨hk, rfl⟩
    exact ⟨_, List.mem_map_of_mem (List.mem_of_getElem? he), points_markedEntry.2 hcounter.symm⟩

/-- At an odd address three bytes before the end of memory there is one word, however many are asked
for. It is pointed out when it comes next, and a listing from one byte before does not have it. -/
theorem listing_exact_end :
    ∃ m : Machine, m.Reachable ∧ m.counter = 0xFFD ∧
      (m.listing 0xFFD (wordLimit - 1)).length = 1 ∧
      (∃ line ∈ ((Command.disassemble 0xFFD (wordLimit - 1)).respond m).lines, Points line) ∧
      (m.listing 0xFFC (wordLimit - 1)).length = 2 ∧
      (¬ ∃ line ∈ ((Command.disassemble 0xFFC (wordLimit - 1)).respond m).lines, Points line) ∧
      (m.listing 0xFFF 1).length = 0 ∧ m.listing 0x1000 1 = [] := by
  obtain ⟨start, hstart, -⟩ := exists_started ⟨"none", []⟩ (by decide)
  refine ⟨(start.act (.follow (.jump 0xFFD))).machine, hstart.act trivial, rfl,
    (listing_exact _ 0xFFD _).2.1, ?_, (listing_exact _ 0xFFC _).2.1, ?_,
    (listing_exact _ 0xFFF 1).2.1, (listing_exact _ 0x1000 1).1 (by decide)⟩
  · obtain ⟨shown, hshown, -, -, harrow⟩ := (listing_exact _ 0xFFD (wordLimit - 1)).2.2.2
    rw [hshown]
    exact harrow.2 ⟨0, by decide, rfl⟩
  · obtain ⟨shown, hshown, -, -, harrow⟩ := (listing_exact _ 0xFFC (wordLimit - 1)).2.2.2
    rw [hshown]
    intro h
    obtain ⟨k, -, hk⟩ := harrow.1 h
    have hodd : 0xFFD = 0xFFC + 2 * k := hk
    omega

end Machine

end SpriteVM
