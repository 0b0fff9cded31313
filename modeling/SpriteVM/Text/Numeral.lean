/-!
# Numerals

Natural numbers as text, to any base from two to sixteen. Writing uses upper-case digits and may
pad with zeros (`decimal`, `hexDigits`, `hex`); reading (`unsigned?`, `read?`) takes digits of
either case and refuses a value that does not fit a machine word of 64 bits.

The two sides meet in the list of digit values: `digits` splits a number into them, `value` puts
them together again. So a number that is written is read back (`unsigned?_padded`).
-/

namespace SpriteVM.Numeral

/-! ## Digits -/

/-- The upper-case character of a digit value below sixteen. -/
def digitChar (d : Nat) : Char :=
  Char.ofNat (if d < 10 then 0x30 + d else 0x37 + d)

/-- The value of a hexadecimal digit of either case. -/
def hexValue? (c : Char) : Option Nat :=
  if '0' ≤ c ∧ c ≤ '9' then some (c.toNat - 0x30)
  else if 'A' ≤ c ∧ c ≤ 'F' then some (c.toNat - 0x37)
  else if 'a' ≤ c ∧ c ≤ 'f' then some (c.toNat - 0x57)
  else none

/-- The value of a character that is a digit to the given base. -/
def digitValue? (base : Nat) (c : Char) : Option Nat :=
  (hexValue? c).filter (· < base)

/-- The digit values of `n` with at most `fuel` digits before the leading one. -/
def digitsWithin (base : Nat) : Nat → Nat → List Nat
  | 0, n => [n]
  | fuel + 1, n =>
    if n < base then [n] else digitsWithin base fuel (n / base) ++ [n % base]

/-- The digit values of `n`, most significant first. Zero has one digit, every other number
starts with a digit that is not zero. A number has fewer digits than its own size, so `n` itself
bounds the recursion. -/
def digits (base n : Nat) : List Nat :=
  digitsWithin base n n

/-- The number that a list of digit values denotes, most significant first. -/
def value (base : Nat) (ds : List Nat) : Nat :=
  ds.foldl (fun v d => base * v + d) 0

theorem hexValue?_digitChar {d : Nat} (h : d < 16) : hexValue? (digitChar d) = some d := by
  have all : ∀ e ∈ List.range 16, hexValue? (digitChar e) = some e := by decide
  exact all d (List.mem_range.2 h)

/-- A written digit is read as itself. -/
theorem digitValue?_digitChar {base d : Nat} (hb : base ≤ 16) (h : d < base) :
    digitValue? base (digitChar d) = some d := by
  simp [digitValue?, hexValue?_digitChar (Nat.lt_of_lt_of_le h hb), h]

theorem value_append_singleton (base : Nat) (ds : List Nat) (d : Nat) :
    value base (ds ++ [d]) = base * value base ds + d := by
  simp [value]

theorem value_digitsWithin (base fuel n : Nat) : value base (digitsWithin base fuel n) = n := by
  induction fuel generalizing n with
  | zero => simp [digitsWithin, value]
  | succ fuel ih =>
    rw [digitsWithin]
    split
    · simp [value]
    · rw [value_append_singleton, ih, Nat.div_add_mod]

/-- The digits of a number denote it. -/
theorem value_digits (base n : Nat) : value base (digits base n) = n :=
  value_digitsWithin base n n

theorem lt_of_mem_digitsWithin {base fuel n d : Nat} (hb : 2 ≤ base) (hn : n ≤ fuel)
    (hd : d ∈ digitsWithin base fuel n) : d < base := by
  induction fuel generalizing n with
  | zero => simp [digitsWithin] at hd; omega
  | succ fuel ih =>
    rw [digitsWithin] at hd
    split at hd
    · simp_all
    · rcases List.mem_append.1 hd with hd | hd
      · refine ih ?_ hd
        have := Nat.div_lt_self (show 0 < n by omega) (show 1 < base by omega)
        omega
      · have := Nat.mod_lt n (show 0 < base by omega)
        simp_all

/-- Every digit of a number is below the base. -/
theorem lt_of_mem_digits {base n d : Nat} (hb : 2 ≤ base) (hd : d ∈ digits base n) : d < base :=
  lt_of_mem_digitsWithin hb (Nat.le_refl n) hd

/-- A number below a power of the base has no more digits than that. -/
theorem length_digitsWithin_le {base fuel n width : Nat} (hw : 0 < width)
    (h : n < Nat.pow base width) : (digitsWithin base fuel n).length ≤ width := by
  induction fuel generalizing n width with
  | zero => exact hw
  | succ fuel ih =>
    rw [digitsWithin]
    split
    · exact hw
    · next hn =>
      obtain ⟨w, rfl⟩ := Nat.exists_eq_add_of_lt hw
      rw [Nat.zero_add] at h
      have hstep : n < base * Nat.pow base w := Nat.mul_comm _ base ▸ h
      have hw' : 0 < w := by
        rcases Nat.eq_zero_or_pos w with rfl | hw'
        · exact absurd (Nat.mul_one base ▸ hstep) hn
        · exact hw'
      rw [List.length_append, Nat.zero_add]
      exact Nat.succ_le_succ (ih hw' (Nat.div_lt_of_lt_mul hstep))

theorem digits_ne_nil (base n : Nat) : digits base n ≠ [] := by
  rw [digits]
  cases n with
  | zero => exact List.cons_ne_nil _ _
  | succ n =>
    rw [digitsWithin]
    split
    · exact List.cons_ne_nil _ _
    · exact List.append_ne_nil_of_right_ne_nil _ (List.cons_ne_nil _ _)

/-- Zeros in front do not count. -/
theorem value_replicate_zero_append (base k : Nat) (ds : List Nat) :
    value base (List.replicate k 0 ++ ds) = value base ds := by
  induction k with
  | zero => rfl
  | succ k ih => rw [List.replicate_succ, List.cons_append, ← ih]; simp [value]

/-! ## Writing -/

/-- The digits of `n` as characters, with zeros in front up to `width` of them. -/
def padded (base width n : Nat) : List Char :=
  let cs := (digits base n).map digitChar
  List.replicate (width - cs.length) '0' ++ cs

/-- The zeros in front are digits like the others. -/
theorem padded_eq_map (base width n : Nat) :
    padded base width n =
      (List.replicate (width - (digits base n).length) 0 ++ digits base n).map digitChar := by
  rw [padded, List.map_append, List.map_replicate, List.length_map]
  rfl

/-- A number that fits the width takes exactly that. -/
theorem length_padded {base width n : Nat} (hw : 0 < width) (h : n < Nat.pow base width) :
    (padded base width n).length = width := by
  have hdigits : (digits base n).length ≤ width := length_digitsWithin_le hw h
  rw [padded_eq_map, List.length_map, List.length_append, List.length_replicate]
  omega

theorem lt_of_mem_replicate_zero_append {base k n d : Nat} (hb : 2 ≤ base)
    (h : d ∈ List.replicate k 0 ++ digits base n) : d < base := by
  rcases List.mem_append.1 h with h | h
  · rw [List.eq_of_mem_replicate h]
    exact Nat.lt_of_lt_of_le (by decide) hb
  · exact lt_of_mem_digits hb h

/-- Every character of a numeral is a digit. -/
theorem exists_digit_of_mem_padded {base width n : Nat} (hb : 2 ≤ base) {c : Char}
    (h : c ∈ padded base width n) : ∃ d < base, c = digitChar d := by
  rw [padded_eq_map] at h
  obtain ⟨d, hd, rfl⟩ := List.mem_map.1 h
  exact ⟨d, lt_of_mem_replicate_zero_append hb hd, rfl⟩

/-- There are no other characters in a numeral. -/
theorem notMem_padded {width n : Nat} {c : Char} (h : hexValue? c = none) :
    c ∉ padded 16 width n := by
  intro hmem
  obtain ⟨d, hd, rfl⟩ := exists_digit_of_mem_padded (by decide) hmem
  cases h.symm.trans (hexValue?_digitChar hd)

/-- A number in decimal, without padding. -/
def decimal (n : Nat) : String :=
  String.ofList (padded 10 0 n)

/-- A number in upper-case hexadecimal with at least `width` digits and no prefix. -/
def hexDigits (width n : Nat) : String :=
  String.ofList (padded 16 width n)

theorem length_hexDigits {width n : Nat} (hw : 0 < width) (h : n < Nat.pow 16 width) :
    (hexDigits width n).length = width := by
  rw [hexDigits, String.length_ofList, length_padded hw h]

theorem notMem_hexDigits {width n : Nat} {c : Char} (h : hexValue? c = none) :
    c ∉ (hexDigits width n).toList := by
  rw [hexDigits, String.toList_ofList]
  exact notMem_padded h

/-- A number as `0x` and at least `width` upper-case hexadecimal digits. -/
def hex (width n : Nat) : String :=
  "0x" ++ hexDigits width n

/-! ## Reading -/

/-- The first number that does not fit a machine word of 64 bits. -/
def wordLimit : Nat := 0x10000000000000000

/-- The value of a text of one or more digits and nothing else. -/
def unsigned? (base : Nat) (cs : List Char) : Option Nat :=
  if cs.isEmpty then none else (cs.mapM (digitValue? base)).map (value base)

/-- A list is read entry by entry as it was written. -/
theorem mapM_map {α β : Type} {write : α → β} {read : β → Option α} {xs : List α}
    (h : ∀ x ∈ xs, read (write x) = some x) : (xs.map write).mapM read = some xs := by
  induction xs with
  | nil => rfl
  | cons x xs ih =>
    obtain ⟨hx, hxs⟩ := List.forall_mem_cons.1 h
    rw [List.map_cons, List.mapM_cons, hx, ih hxs]
    rfl

/-- Written digits are read as themselves. -/
theorem mapM_digitValue? {base : Nat} (hb : base ≤ 16) {ds : List Nat} (h : ∀ d ∈ ds, d < base) :
    (ds.map digitChar).mapM (digitValue? base) = some ds :=
  mapM_map fun d hd => digitValue?_digitChar hb (h d hd)

/-- What is written is read back. -/
theorem unsigned?_padded {base : Nat} (hb : 2 ≤ base) (hb' : base ≤ 16) (width n : Nat) :
    unsigned? base (padded base width n) = some n := by
  have hne : padded base width n ≠ [] := by
    rw [padded_eq_map]
    simp [digits_ne_nil]
  rw [unsigned?, if_neg (by rwa [List.isEmpty_iff]), padded_eq_map,
    mapM_digitValue? hb' fun d hd => lt_of_mem_replicate_zero_append hb hd, Option.map_some,
    value_replicate_zero_append, value_digits]

/-- Different numbers are written differently. -/
theorem padded_inj {base : Nat} (hb : 2 ≤ base) (hb' : base ≤ 16) {width width' n n' : Nat}
    (h : padded base width n = padded base width' n') : n = n' := by
  have hread := congrArg (unsigned? base) h
  rw [unsigned?_padded hb hb', unsigned?_padded hb hb'] at hread
  exact Option.some.inj hread

/-- The value of a numeral with an optional single `+` in front, when it fits a machine word. -/
def read? (base : Nat) (cs : List Char) : Option Nat :=
  let ds := match cs with
    | '+' :: rest => rest
    | _ => cs
  (unsigned? base ds).filter (· < wordLimit)

end SpriteVM.Numeral
