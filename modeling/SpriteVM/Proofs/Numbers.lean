import Mathlib.Data.List.Forall2
import Mathlib.Data.List.Induction
import Mathlib.Data.Nat.Digits.Defs
import SpriteVM.Proofs.Dumping
import SpriteVM.Proofs.Spacing

/-!
# Numbers that are typed

`Numeral.Denotes` is the notation of numbers: decimal digits, or `0x` and hexadecimal digits of
either case, with an optional `+` in front of the digits. It knows digits from a table and their value
from the place of each digit. `number?_eq_some` says that just these words are read, with the numbers
that they denote.

Whatever is written with these digits is read back, so the addresses that are printed can be typed
again (`numbers_exact`).
-/

namespace SpriteVM

namespace Numeral

variable {base n : Nat} {c : Char} {cs : List Char} {ds : List Nat}

/-! ## The notation of numbers -/

/-- The digits of either case in the order of their values. -/
def digitTables : List (List Char) :=
  ["0123456789ABCDEF".toList, "0123456789abcdef".toList]

/-- A character is the digit of a value. -/
def IsDigit (base : Nat) (c : Char) (d : Nat) : Prop :=
  d < base ∧ ∃ table ∈ digitTables, table[d]? = some c

/-- One or more digits, the most significant first, make up a number. -/
def Spells (base : Nat) (cs : List Char) (n : Nat) : Prop :=
  cs ≠ [] ∧ ∃ ds, List.Forall₂ (IsDigit base) cs ds ∧ Nat.ofDigits base ds.reverse = n

/-- What may stand in front of the digits. -/
def IsSign (sign : List Char) : Prop :=
  sign = [] ∨ sign = ['+']

/-- A word denotes a number of at most 64 bits. -/
inductive Denotes : List Char → Nat → Prop where
  /-- in decimal -/
  | decimal {s cs : List Char} {n : Nat} (hs : IsSign s) (h : Spells 10 cs n) (hn : n < 2 ^ 64) :
      Denotes (s ++ cs) n
  /-- in hexadecimal -/
  | hexadecimal {x : Char} {s cs : List Char} {n : Nat} (hx : x = 'x' ∨ x = 'X') (hs : IsSign s)
      (h : Spells 16 cs n) (hn : n < 2 ^ 64) : Denotes ('0' :: x :: (s ++ cs)) n

/-! ## Reading digits -/

/-- The characters of a range are counted from the first one. -/
theorem exists_ofNat_of_between {a z : Char} (h : a ≤ c ∧ c ≤ z) :
    ∃ k ∈ List.range (z.toNat - a.toNat + 1), c = Char.ofNat (a.toNat + k) := by
  have hle : a.toNat ≤ c.toNat := h.1
  have hle' : c.toNat ≤ z.toNat := h.2
  refine ⟨c.toNat - a.toNat, List.mem_range.2 (by omega), ?_⟩
  rw [Nat.add_sub_cancel' hle, Char.ofNat_toNat]

/-- A character is read as a digit if it stands in a table. -/
theorem hexValue?_eq_some {d : Nat} :
    hexValue? c = some d ↔ ∃ table ∈ digitTables, table[d]? = some c := by
  constructor
  · intro h
    unfold hexValue? at h
    split at h
    · next hc =>
      obtain ⟨k, hk, rfl⟩ := exists_ofNat_of_between hc
      obtain rfl := Option.some.inj h
      revert k
      decide
    · split at h
      · next hc =>
        obtain ⟨k, hk, rfl⟩ := exists_ofNat_of_between hc
        obtain rfl := Option.some.inj h
        revert k
        decide
      · split at h
        · next hc =>
          obtain ⟨k, hk, rfl⟩ := exists_ofNat_of_between hc
          obtain rfl := Option.some.inj h
          revert k
          decide
        · cases h
  · rintro ⟨table, htable, hd⟩
    have all : ∀ table ∈ digitTables, table.length = 16 ∧
        ∀ d ∈ List.range 16, table[d]?.bind hexValue? = some d := by decide
    obtain ⟨hlength, hread⟩ := all table htable
    obtain ⟨hlt, -⟩ := List.getElem?_eq_some_iff.1 hd
    have h := hread d (List.mem_range.2 (hlength ▸ hlt))
    rwa [hd] at h

theorem digitValue?_eq_some {d : Nat} : digitValue? base c = some d ↔ IsDigit base c d := by
  rw [digitValue?, Option.filter_eq_some_iff, hexValue?_eq_some, decide_eq_true_iff, and_comm,
    IsDigit]

/-- A list is read entry by entry. -/
theorem mapM_eq_some {α β : Type} {read : α → Option β} {xs : List α} {ys : List β} :
    xs.mapM read = some ys ↔ List.Forall₂ (fun x y => read x = some y) xs ys := by
  induction xs generalizing ys with
  | nil =>
    rw [List.mapM_nil, List.forall₂_nil_left_iff]
    exact ⟨fun h => (Option.some.inj h).symm, fun h => h ▸ rfl⟩
  | cons x xs ih =>
    rw [List.mapM_cons, List.forall₂_cons_left_iff]
    constructor
    · intro h
      obtain ⟨y, hy, h⟩ := Option.bind_eq_some_iff.1 h
      obtain ⟨ys, hys, h⟩ := Option.bind_eq_some_iff.1 h
      obtain rfl := Option.some.inj h
      exact ⟨y, ys, hy, ih.1 hys, rfl⟩
    · rintro ⟨y, ys, hy, hys, rfl⟩
      rw [hy, ih.2 hys]
      rfl

/-- Each digit counts as its place says. -/
theorem value_eq_ofDigits (base : Nat) (ds : List Nat) :
    value base ds = Nat.ofDigits base ds.reverse := by
  induction ds using List.reverseRecOn with
  | nil => rfl
  | append_singleton ds d ih =>
    rw [value_append_singleton, ih, List.reverse_append, List.reverse_singleton,
      List.singleton_append, Nat.ofDigits_cons, Nat.add_comm]

theorem mapM_digitValue?_eq_some :
    cs.mapM (digitValue? base) = some ds ↔ List.Forall₂ (IsDigit base) cs ds := by
  simp only [mapM_eq_some, digitValue?_eq_some]

/-- Digits are read as the number that they make up. -/
theorem unsigned?_eq_some : unsigned? base cs = some n ↔ Spells base cs n := by
  rw [unsigned?, Spells]
  by_cases hne : cs = []
  · rw [if_pos (List.isEmpty_iff.2 hne)]
    exact iff_of_false (by simp) fun h => h.1 hne
  · rw [if_neg (mt List.isEmpty_iff.1 hne), Option.map_eq_some_iff, and_iff_right hne]
    simp only [mapM_digitValue?_eq_some, value_eq_ofDigits]

/-- All characters of a number are digits. -/
theorem Spells.exists_isDigit (h : Spells base cs n) : ∀ c ∈ cs, ∃ d, IsDigit base c d := by
  obtain ⟨-, ds, hds, -⟩ := h
  induction hds with
  | nil => nofun
  | cons hd _ ih => exact List.forall_mem_cons.2 ⟨⟨_, hd⟩, ih⟩

/-- There is no other character in a number. -/
theorem Spells.notMem (h : Spells base cs n) (hc : hexValue? c = none) : c ∉ cs := by
  intro hmem
  obtain ⟨d, -, hd⟩ := h.exists_isDigit c hmem
  cases hc.symm.trans (hexValue?_eq_some.2 hd)

theorem unsigned?_eq_none_of_mem (hmem : c ∈ cs) (hc : hexValue? c = none) :
    unsigned? base cs = none :=
  Option.eq_none_iff_forall_ne_some.2 fun _ h => (unsigned?_eq_some.1 h).notMem hc hmem

/-- A sign in front of the digits does not matter. -/
theorem read?_eq_some : read? base cs = some n ↔
    n < wordLimit ∧ ∃ sign digits, cs = sign ++ digits ∧ IsSign sign ∧ Spells base digits n := by
  have hread : ∀ digits, (unsigned? base digits).filter (· < wordLimit) = some n ↔
      n < wordLimit ∧ Spells base digits n := by
    intro digits
    rw [Option.filter_eq_some_iff, unsigned?_eq_some, decide_eq_true_iff, and_comm]
  unfold read?
  split
  · next digits =>
    rw [hread]
    refine and_congr_right fun hn => ⟨fun h => ⟨['+'], digits, rfl, .inr rfl, h⟩, ?_⟩
    rintro ⟨sign, digits', hcs, rfl | rfl, h⟩
    · obtain rfl : digits' = '+' :: digits := hcs.symm
      exact absurd (List.mem_cons_self ..) (h.notMem (by decide))
    · exact (List.cons.inj hcs).2 ▸ h
  · next hplus =>
    rw [hread]
    refine and_congr_right fun hn => ⟨fun h => ⟨[], cs, rfl, .inl rfl, h⟩, ?_⟩
    rintro ⟨sign, digits, rfl, rfl | rfl, h⟩
    · exact h
    · exact absurd rfl (hplus digits)

/-- A character that is neither a digit nor a sign spoils a number. -/
theorem read?_eq_none_of_mem (hmem : c ∈ cs) (hc : hexValue? c = none) (hplus : c ≠ '+') :
    read? base cs = none := by
  refine Option.eq_none_iff_forall_ne_some.2 fun n h => ?_
  obtain ⟨-, sign, digits, rfl, hsign, hdigits⟩ := read?_eq_some.1 h
  have hmem' : c ∉ sign := by rcases hsign with rfl | rfl <;> simp [hplus]
  exact (List.mem_append.1 hmem).elim hmem' (hdigits.notMem hc)

end Numeral

namespace Command

open Numeral

variable {word : List Char} {n : Nat}

theorem number?_hexadecimal {x : Char} (hx : x = 'x' ∨ x = 'X') (cs : List Char) :
    number? ('0' :: x :: cs) = read? 16 cs := by
  rcases hx with rfl | rfl <;> rfl

theorem number?_decimal (h : ∀ x cs, (x = 'x' ∨ x = 'X') → word ≠ '0' :: x :: cs) :
    number? word = read? 10 word := by
  unfold number?
  split
  · next cs => exact absurd rfl (h _ cs (.inl rfl))
  · next cs => exact absurd rfl (h _ cs (.inr rfl))
  · rfl

/-- There is no prefix in a decimal number. -/
theorem read?_eq_none_of_prefixed {x : Char} (hx : x = 'x' ∨ x = 'X') (hmem : x ∈ word) :
    read? 10 word = none := by
  rcases hx with rfl | rfl <;> exact read?_eq_none_of_mem hmem (by decide) (by decide)

/-- Just the words that denote a number are read. -/
theorem number?_eq_some : number? word = some n ↔ Denotes word n := by
  constructor
  · intro h
    by_cases hpre : ∃ x cs, (x = 'x' ∨ x = 'X') ∧ word = '0' :: x :: cs
    · obtain ⟨x, cs, hx, rfl⟩ := hpre
      rw [number?_hexadecimal hx] at h
      obtain ⟨hn, sign, digits, rfl, hsign, hdigits⟩ := read?_eq_some.1 h
      exact .hexadecimal hx hsign hdigits hn
    · rw [number?_decimal fun x cs hx hword => hpre ⟨x, cs, hx, hword⟩] at h
      obtain ⟨hn, sign, digits, rfl, hsign, hdigits⟩ := read?_eq_some.1 h
      exact .decimal hsign hdigits hn
  · rintro (⟨hsign, hdigits, hn⟩ | ⟨hx, hsign, hdigits, hn⟩)
    · have hread := read?_eq_some.2 ⟨hn, _, _, rfl, hsign, hdigits⟩
      rw [number?_decimal ?_, hread]
      rintro x cs hx hword
      rw [read?_eq_none_of_prefixed hx (by simp [hword])] at hread
      cases hread
    · rw [number?_hexadecimal hx]
      exact read?_eq_some.2 ⟨hn, _, _, rfl, hsign, hdigits⟩

/-! ## Numbers that were written -/

/-- Whatever the case of its letters, a digit has one value. -/
theorem hexValue?_toUpper (c : Char) : hexValue? c.toUpper = hexValue? c := by
  by_cases hc : 'a' ≤ c ∧ c ≤ 'z'
  · obtain ⟨k, hk, rfl⟩ := exists_ofNat_of_between hc
    revert k
    decide
  · have hsame : c.toUpper = c := dif_neg hc
    rw [hsame]

theorem unsigned?_map_toUpper (base : Nat) (cs : List Char) :
    unsigned? base (cs.map Char.toUpper) = unsigned? base cs := by
  have hdigit : digitValue? base ∘ Char.toUpper = digitValue? base := by
    funext c
    simp only [Function.comp_apply, digitValue?, hexValue?_toUpper]
  rw [unsigned?, unsigned?, List.isEmpty_map, List.mapM_map, hdigit]

/-- Decimal digits are read back. -/
theorem number?_padded (hn : n < 2 ^ 64) (width : Nat) : number? (padded 10 width n) = some n := by
  have h : Spells 10 (padded 10 width n) n :=
    unsigned?_eq_some.1 (unsigned?_padded (by decide) (by decide) width n)
  exact number?_eq_some.2 (.decimal (s := []) (.inl rfl) h hn)

/-- Hexadecimal digits of either case are read back. -/
theorem number?_prefixed (hn : n < 2 ^ 64) {x : Char} (hx : x = 'x' ∨ x = 'X') {width : Nat}
    {cs : List Char} (hcs : cs.map Char.toUpper = padded 16 width n) :
    number? ('0' :: x :: cs) = some n := by
  have h : Spells 16 cs n := by
    refine unsigned?_eq_some.1 ?_
    rw [← unsigned?_map_toUpper, hcs, unsigned?_padded (by decide) (by decide)]
  exact number?_eq_some.2 (.hexadecimal (s := []) hx (.inl rfl) h hn)

/-! ## Addresses that were printed -/

theorem toList_hex (width n : Nat) : (hex width n).toList = '0' :: 'x' :: padded 16 width n := by
  rw [hex, String.toList_append, hexDigits, String.toList_ofList, String.toList_ofList]
  rfl

theorem toList_addressText (a : Nat) : (addressText a).toList = '0' :: 'x' :: padded 16 4 a :=
  toList_hex 4 a

/-- Numerals are written with upper-case letters. -/
theorem map_toUpper_padded (width n : Nat) :
    (padded 16 width n).map Char.toUpper = padded 16 width n := by
  have all : ∀ d ∈ List.range 16, (digitChar d).toUpper = digitChar d := by decide
  rw [padded_eq_map, List.map_map]
  refine List.map_congr_left fun d hd => ?_
  exact all d (List.mem_range.2 (lt_of_mem_replicate_zero_append (by decide) hd))

theorem number?_addressText {a : Nat} (ha : a < 2 ^ 64) :
    number? (addressText a).toList = some a := by
  rw [toList_addressText]
  exact number?_prefixed ha (.inl rfl) (map_toUpper_padded 4 a)

/-- There are no blanks in a numeral. -/
theorem isBlank_of_mem_padded {base width : Nat} (hb : 2 ≤ base) (hb' : base ≤ 16) :
    ∀ c ∈ padded base width n, Blank.isBlank c = false := by
  intro c hc
  have all : ∀ d ∈ List.range 16, Blank.isBlank (digitChar d) = false := by decide
  obtain ⟨d, hd, rfl⟩ := exists_digit_of_mem_padded hb hc
  exact all d (List.mem_range.2 (Nat.lt_of_lt_of_le hd hb'))

theorem isWord_addressText (a : Nat) : Blank.IsWord (addressText a).toList := by
  rw [toList_addressText]
  refine ⟨List.cons_ne_nil _ _, ?_⟩
  exact List.forall_mem_cons.2 ⟨by decide, List.forall_mem_cons.2 ⟨by decide,
    isBlank_of_mem_padded (by decide) (by decide)⟩⟩

/-- The number that a line begins with. -/
def firstNumber? (line : String) : Option Nat :=
  (Blank.words line.toList).head?.bind number?

/-- An address in front of a blank is a word of its own. -/
theorem firstNumber?_addressText {a : Nat} (ha : a < 2 ^ 64) (rest : String) :
    firstNumber? (addressText a ++ (" " ++ rest)) = some a := by
  have hblank : " ".toList = [' '] := by decide
  rw [firstNumber?, String.toList_append, String.toList_append, hblank, List.singleton_append,
    Blank.words_append_cons (isWord_addressText a) (by decide), List.head?_cons, Option.bind_some,
    number?_addressText ha]

theorem firstNumber?_markedEntry {m : Machine} {e : ListingEntry} (he : e.address < 2 ^ 64) :
    firstNumber? (m.markedEntry e) = some e.address := by
  rw [Machine.markedEntry, ListingEntry.text]
  simp only [String.append_assoc]
  exact firstNumber?_addressText he _

theorem firstNumber?_lineText {address : Nat} (h : address < 2 ^ 64) (bytes : List UInt8) :
    firstNumber? (Dump.lineText address bytes) = some address := by
  have hcolon : " :" = " " ++ ":" := by decide
  rw [Dump.lineText, hcolon]
  simp only [String.append_assoc]
  exact firstNumber?_addressText h _

/-! ## Reading numbers -/

theorem numbers_singleton (word : List Char) :
    numbers [word] = match number? word with
      | none => .error (.notANumber (String.ofList word))
      | some n => .ok [n] := by
  rw [numbers]
  cases number? word <;> rfl

/-- **Numbers are read exactly.** A word is read as the number that it denotes, and as a mistake
with this very word if it denotes none; a minus, a sign in front of a prefix and a prefix without
digits are mistakes. So any number of 64 bits is read back from its decimal digits and from its
hexadecimal ones, whatever their case and however many zeros stand in front. The addresses in
listings and dumps are among these. -/
theorem numbers_exact :
    (∀ word n, number? word = some n ↔ Denotes word n) ∧
    (∀ word n, numbers [word] = .ok [n] ↔ Denotes word n) ∧
    (∀ word e, numbers [word] = .error e ↔
      e = .notANumber (String.ofList word) ∧ ∀ n, ¬ Denotes word n) ∧
    (∀ cs, number? ('-' :: cs) = none) ∧
    (∀ x, x = 'x' ∨ x = 'X' → number? ['0', x] = none ∧ number? ['0', x, '+'] = none ∧
      ∀ cs, number? ('+' :: '0' :: x :: cs) = none) ∧
    (∀ n < 2 ^ 64, ∀ width, number? (padded 10 width n) = some n ∧
      ∀ x cs, (x = 'x' ∨ x = 'X') → cs.map Char.toUpper = padded 16 width n →
        number? ('0' :: x :: cs) = some n) ∧
    ∀ (m : Machine) (start count : Nat),
      (∀ e ∈ m.listing start count, firstNumber? (m.markedEntry e) = some e.address) ∧
      ∃ lines, Dump.text m.memory start count = "\n".intercalate lines ∧
        ∀ k line, lines[k]? = some line → firstNumber? line = some (start + 16 * k) := by
  refine ⟨fun word n => number?_eq_some, fun word n => ?_, fun word e => ?_, fun cs => ?_,
    fun x hx => ⟨?_, ?_, fun cs => ?_⟩, fun n hn width => ⟨number?_padded hn width, ?_⟩,
    fun m start count => ⟨fun e he => ?_, _, Dump.text_eq, fun k line hline => ?_⟩⟩
  · rw [numbers_singleton, ← number?_eq_some]
    cases number? word with
    | none => exact iff_of_false nofun nofun
    | some v => simp
  · rw [numbers_singleton]
    simp only [← number?_eq_some]
    cases number? word with
    | none => simp [eq_comm]
    | some v => simp
  · rw [number?_decimal (by simp)]
    exact read?_eq_none_of_mem (List.mem_cons_self ..) (by decide) (by decide)
  · exact number?_hexadecimal hx []
  · exact number?_hexadecimal hx ['+']
  · rw [number?_decimal (by simp)]
    exact read?_eq_none_of_prefixed hx (by simp)
  · exact fun x cs hx hcs => number?_prefixed hn hx hcs
  · obtain ⟨k, hk⟩ := List.mem_iff_getElem?.1 he
    obtain ⟨hlt, rfl⟩ := Machine.getElem?_listing.1 hk
    have haddress : start + 2 * k + 1 < memorySize := Memory.lt_of_lt_extent hlt
    refine firstNumber?_markedEntry (Nat.lt_trans (Nat.lt_of_succ_lt haddress) (by decide))
  · rw [List.getElem?_map] at hline
    obtain ⟨row, hrow, rfl⟩ := Option.map_eq_some_iff.1 hline
    have haddress := Dump.lt_of_mem_rows (List.mem_of_getElem? hrow)
    rw [firstNumber?_lineText (Nat.lt_trans haddress (by decide)), (Dump.getElem?_rows.1 hrow).2]

/-- The largest number of 64 bits is read with zeros in front and with letters of both cases. The one
after it is a mistake. -/
theorem numbers_exact_largest :
    number? "00018446744073709551615".toList = some (2 ^ 64 - 1) ∧
      number? "0X000fFFfFFFFffffFFFF".toList = some (2 ^ 64 - 1) ∧
      numbers ["18446744073709551616".toList] = .error (.notANumber "18446744073709551616") ∧
      number? "+0x10".toList = none := by
  obtain ⟨-, -, -, -, hprefix, hback, -⟩ := numbers_exact
  obtain ⟨-, -, hsign⟩ := hprefix 'x' (.inl rfl)
  have hdecimal : "00018446744073709551615".toList = padded 10 23 (2 ^ 64 - 1) := by decide
  have hcases : ("000fFFfFFFFffffFFFF".toList).map Char.toUpper = padded 16 19 (2 ^ 64 - 1) := by
    decide
  obtain ⟨hread, hread'⟩ := hback (2 ^ 64 - 1) (by decide) 23
  refine ⟨hdecimal ▸ hread, ?_, by decide, hsign ['1', '0']⟩
  exact (hback (2 ^ 64 - 1) (by decide) 19).2 'X' _ (.inr rfl) hcases

end Command

end SpriteVM
