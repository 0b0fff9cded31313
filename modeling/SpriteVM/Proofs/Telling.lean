import SpriteVM.Instruction.Mnemonic
import SpriteVM.Text.Layout

/-!
# Texts that tell what they are about

A text that is put together from parts can be taken apart from its end when each part, read from its
end, tells where it begins. `Tells s t p` says this of two texts: where one of them could stand, the
other could stand only in the same place and only if `p`. Nothing is asked of what stands in front,
so an arbitrary text may.

Parts that tell are put together by `Tells.append`, `Tells.join` and `Tells.stack`. Numerals of one
width tell their numbers.
-/

namespace SpriteVM

/-- When two texts end the same text, they begin at the same place in it, and `p` holds. -/
def Tells (s t : String) (p : Prop) : Prop :=
  ∀ u v : String, u ++ s = v ++ t → u = v ∧ p

namespace Tells

variable {s t s' t' : String} {p q : Prop} {α : Type}

/-! ## Putting texts together -/

theorem of_imp (h : Tells s t p) (hpq : p → q) : Tells s t q :=
  fun u v heq => (h u v heq).imp_right hpq

theorem symm (h : Tells s t p) : Tells t s p :=
  fun u v heq => (h v u heq.symm).imp_left Eq.symm

/-- A part may stand in front of another one. -/
theorem append (h : Tells s t p) (h' : Tells s' t' q) : Tells (s ++ s') (t ++ t') (p ∧ q) := by
  intro u v heq
  rw [← String.append_assoc, ← String.append_assoc] at heq
  obtain ⟨hfront, hq⟩ := h' _ _ heq
  obtain ⟨huv, hp⟩ := h u v hfront
  exact ⟨huv, hp, hq⟩

/-- The same text tells nothing. -/
theorem same (s : String) : Tells s s True :=
  fun _ _ heq => ⟨(String.append_left_inj s).1 heq, trivial⟩

theorem before (c : String) (h : Tells s t p) : Tells (c ++ s) (c ++ t) p :=
  ((same c).append h).of_imp And.right

theorem after (h : Tells s t p) (c : String) : Tells (s ++ c) (t ++ c) p :=
  (h.append (same c)).of_imp And.left

/-- Texts of one length begin at the same place. -/
theorem of_length (hlength : s.length = t.length) (h : s = t → p) : Tells s t p := by
  intro u v heq
  have hlists := congrArg String.toList heq
  rw [String.toList_append, String.toList_append] at hlists
  obtain ⟨hfront, hend⟩ := List.append_inj' hlists (by
    rw [String.length_toList, String.length_toList, hlength])
  exact ⟨String.toList_inj.1 hfront, h (String.toList_inj.1 hend)⟩

/-- Texts with different ends are never in the same place. -/
theorem of_ends (s t : String) (h : Tells s' t' False) : Tells (s ++ s') (t ++ t') p := by
  intro u v heq
  rw [← String.append_assoc, ← String.append_assoc] at heq
  exact (h _ _ heq).2.elim

/-! ## Lists -/

/-- Lists of one length are told entry by entry. -/
theorem join {f : α → String} {xs ys : List α} (hlength : xs.length = ys.length)
    (h : ∀ x ∈ xs, ∀ y ∈ ys, Tells (f x) (f y) (x = y)) :
    Tells (String.join (xs.map f)) (String.join (ys.map f)) (xs = ys) := by
  induction xs generalizing ys with
  | nil =>
    obtain rfl := List.length_eq_zero_iff.1 hlength.symm
    exact (same _).of_imp fun _ => rfl
  | cons x xs ih =>
    obtain ⟨y, ys, rfl⟩ := List.exists_cons_of_length_eq_add_one hlength.symm
    have hfirst := h x (List.mem_cons_self ..) y (List.mem_cons_self ..)
    have hrest := ih (Nat.succ.inj hlength) fun x hx y hy =>
      h x (List.mem_cons_of_mem _ hx) y (List.mem_cons_of_mem _ hy)
    rw [List.map_cons, List.map_cons, String.join_cons, String.join_cons]
    refine (hfirst.append hrest).of_imp ?_
    rintro ⟨rfl, rfl⟩
    rfl

/-- What stands in front of a row that comes after others, all of them after a text. -/
def above (u : String) (rows : List String) : String :=
  if rows = [] then u else u ++ Layout.stack rows ++ "\n"

theorem append_stack (u : String) (rows : List String) (row : String) :
    u ++ Layout.stack (rows ++ [row]) = above u rows ++ row := by
  rw [above]
  split
  · next h => rw [h, List.nil_append, Layout.stack, String.intercalate_singleton]
  · next h =>
    rw [Layout.stack, String.intercalate_append_of_ne_nil h (List.cons_ne_nil _ _),
      String.intercalate_singleton, Layout.stack]
    simp only [String.append_assoc]

/-- The last rows do not matter to whether a row that comes first stands elsewhere. -/
theorem notMem_tail {xs ys : List α} {x y : α} (hys : ys ≠ [])
    (h : ∀ a ∈ (xs ++ [x]).head?, a ∉ (ys ++ [y]).tail) : ∀ a ∈ xs.head?, a ∉ ys.tail := by
  intro a ha hmem
  refine h a ?_ ?_
  · rw [List.head?_append, Option.mem_def.1 ha]
    rfl
  · rw [List.tail_append_of_ne_nil hys]
    exact List.mem_append_left _ hmem

/-- Rows are told from the last one upwards, however many there are, if a row that comes first stands
nowhere else. The induction is on the number of rows. -/
theorem stack {f : α → String} {xs ys : List α} (hxs : xs ≠ []) (hys : ys ≠ [])
    (h : ∀ x ∈ xs, ∀ y ∈ ys, Tells (f x) (f y) (x = y))
    (hfirst : ∀ x ∈ xs.head?, x ∉ ys.tail) (hfirst' : ∀ y ∈ ys.head?, y ∉ xs.tail) :
    Tells (Layout.stack (xs.map f)) (Layout.stack (ys.map f)) (xs = ys) := by
  induction hlength : xs.length generalizing xs ys with
  | zero => exact absurd (List.length_eq_zero_iff.1 hlength) hxs
  | succ n ih =>
    intro u v heq
    obtain ⟨xs, x, rfl⟩ : ∃ front last, xs = front ++ [last] :=
      ⟨_, _, (List.dropLast_concat_getLast hxs).symm⟩
    obtain ⟨ys, y, rfl⟩ : ∃ front last, ys = front ++ [last] :=
      ⟨_, _, (List.dropLast_concat_getLast hys).symm⟩
    rw [List.map_append, List.map_append, List.map_singleton, List.map_singleton, append_stack,
      append_stack] at heq
    obtain ⟨hfront, rfl⟩ := h x (by simp) y (by simp) _ _ heq
    simp only [above, List.map_eq_nil_iff] at hfront
    by_cases hxs' : xs = [] <;> by_cases hys' : ys = []
    · subst hxs' hys'
      exact ⟨hfront, rfl⟩
    -- one of the two is a first row, and the other one is not
    · subst hxs'
      exact absurd (by simp [hys']) (hfirst x rfl)
    · subst hys'
      exact absurd (by simp [hxs']) (hfirst' x rfl)
    · rw [if_neg hxs', if_neg hys'] at hfront
      have hrest := ih hxs' hys' (fun x hx y hy => h x (by simp [hx]) y (by simp [hy]))
        (notMem_tail hys' hfirst) (notMem_tail hxs' hfirst') (by simpa using hlength)
      obtain ⟨rfl, rfl⟩ := hrest u v ((String.append_left_inj _).1 hfront)
      exact ⟨rfl, rfl⟩

/-! ## Numerals -/

open Numeral

/-- Numerals of one width tell their numbers. -/
theorem hexDigits {width n n' : Nat} (hw : 0 < width) (hn : n < Nat.pow 16 width)
    (hn' : n' < Nat.pow 16 width) : Tells (hexDigits width n) (hexDigits width n') (n = n') := by
  refine of_length ?_ fun h => padded_inj (by decide) (by decide) (String.ofList_inj.1 h)
  rw [length_hexDigits hw hn, length_hexDigits hw hn']

theorem addressText {a b : Nat} (ha : a < 0x10000) (hb : b < 0x10000) :
    Tells (addressText a) (addressText b) (a = b) :=
  (hexDigits (by decide) ha hb).before "0x"

theorem registerName {x y : Nat} (hx : x < 16) (hy : y < 16) :
    Tells (registerName x) (registerName y) (x = y) :=
  (hexDigits (by decide) hx hy).before "V"

end Tells

end SpriteVM
