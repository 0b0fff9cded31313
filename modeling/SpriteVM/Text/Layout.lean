/-!
# Layout

Columns, lines and rows of a fixed size: what the listings of the machine are set with.
-/

namespace SpriteVM.Layout

/-- A text with blanks after it, up to `width` characters. -/
def padRight (width : Nat) (s : String) : String :=
  s ++ String.ofList (List.replicate (width - s.length) ' ')

/-- Texts one under the other, without a line feed after the last one. -/
def stack (rows : List String) : String :=
  "\n".intercalate rows

/-- A text with a line feed after it. -/
def line (s : String) : String :=
  s ++ "\n"

/-- A list cut into rows of `size` entries; only the last row may be shorter. Rows of no entries
are taken as rows of one. -/
def rows {α : Type} (size : Nat) (xs : List α) : List (List α) :=
  match xs with
  | [] => []
  | x :: rest =>
    (x :: rest.take (size - 1)) :: rows size (rest.drop (size - 1))
termination_by xs.length
decreasing_by
  simp only [List.length_drop, List.length_cons]
  omega

/-- Cutting into rows loses nothing. -/
theorem flatten_rows {α : Type} (size : Nat) (xs : List α) : (rows size xs).flatten = xs := by
  fun_induction rows size xs with
  | case1 => rfl
  | case2 x rest ih => simp [ih]

/-- The first row, and the rows of what is left. -/
theorem rows_of_ne_nil {α : Type} {size : Nat} {xs : List α} (hs : 0 < size) (h : xs ≠ []) :
    rows size xs = xs.take size :: rows size (xs.drop size) := by
  obtain ⟨n, rfl⟩ := Nat.exists_eq_succ_of_ne_zero (Nat.ne_of_gt hs)
  obtain ⟨x, rest, rfl⟩ := List.exists_cons_of_ne_nil h
  rw [rows]
  rfl

/-- There are as many rows as are needed. -/
theorem length_rows {α : Type} {size : Nat} (hs : 0 < size) (xs : List α) :
    (rows size xs).length = (xs.length + (size - 1)) / size := by
  fun_induction rows size xs with
  | case1 =>
    rw [List.length_nil, List.length_nil, Nat.zero_add, Nat.div_eq_of_lt (Nat.sub_one_lt_of_lt hs)]
  | case2 x rest ih =>
    have hall : (x :: rest).length + (size - 1) = rest.length + size := by
      rw [List.length_cons]
      omega
    rw [List.length_cons, ih, List.length_drop, hall, Nat.add_div_right _ hs]
    rcases Nat.lt_or_ge rest.length (size - 1) with h | h
    -- the first row takes all that there is
    · rw [Nat.sub_eq_zero_of_le (Nat.le_of_lt h), Nat.zero_add,
        Nat.div_eq_of_lt (Nat.sub_one_lt_of_lt hs), Nat.div_eq_of_lt (by omega)]
    · rw [Nat.sub_add_cancel h]

/-- Every row is a stretch of the list. -/
theorem getElem?_rows {α : Type} {size : Nat} (hs : 0 < size) (xs : List α) (k : Nat) :
    (rows size xs)[k]? =
      if size * k < xs.length then some ((xs.drop (size * k)).take size) else none := by
  induction k generalizing xs with
  | zero =>
    rcases xs with _ | ⟨x, rest⟩
    · rw [rows]
      rfl
    · rw [rows_of_ne_nil hs (List.cons_ne_nil _ _), Nat.mul_zero, List.length_cons,
        if_pos (Nat.succ_pos _)]
      rfl
  | succ k ih =>
    rcases xs with _ | ⟨x, rest⟩
    · rw [rows]
      rfl
    · rw [rows_of_ne_nil hs (List.cons_ne_nil _ _), List.getElem?_cons_succ, ih, List.length_drop,
        List.drop_drop, Nat.mul_succ, Nat.add_comm size]
      simp only [Nat.lt_sub_iff_add_lt]

/-- All rows are full when the entries fill them. -/
theorem length_of_mem_rows {α : Type} {size : Nat} {xs row : List α} (hs : 0 < size)
    (h : size ∣ xs.length) (hrow : row ∈ rows size xs) : row.length = size := by
  obtain ⟨k, hk⟩ := List.mem_iff_getElem?.1 hrow
  obtain ⟨n, hn⟩ := h
  rw [getElem?_rows hs] at hk
  obtain ⟨hlt, ⟨⟩⟩ := Option.ite_none_right_eq_some.1 hk
  have hroom : size * (k + 1) ≤ xs.length := by
    rw [hn] at hlt ⊢
    exact Nat.mul_le_mul_left size (Nat.lt_of_mul_lt_mul_left hlt)
  refine List.length_take_of_le ?_
  rw [List.length_drop]
  exact Nat.le_sub_of_add_le' (Nat.mul_succ size k ▸ hroom)

end SpriteVM.Layout
