import SpriteVM.Proofs.Access
import SpriteVM.Proofs.Flipping

/-!
# Drawing

The loops of a drawing flip the points of a sprite and do nothing else. They never ask for a pixel
off the display and never form a sum that is too large, whatever lies in the registers; what they
leave out at the right and at the bottom edge has no pixels anyway. So a drawing leads to
`Machine.drawn`, where all points of the sprite are flipped at once (`draw_apply`).
-/

namespace SpriteVM

open Numeral

/-! ## The drawn machine -/

namespace Machine

/-- The points of `n` rows of the sprite at the index register, drawn to `(Vx, Vy)`. -/
def spritePoints (m : Machine) (x y n : Nat) : Nat → Nat → Bool :=
  Sprite.points (m.registers.cell x).toNat (m.registers.cell y).toNat (m.memory.block m.index n)

/-- The machine with a sprite drawn. The flag register tells whether a lit pixel was hit. -/
def drawn (m : Machine) (x y n : Nat) : Machine :=
  { m with registers := m.registers.put flagRegister 0 }.flip (m.spritePoints x y n)

end Machine

namespace Work

variable {m : Machine}

/-! ## The loops -/

theorem flipPixel_apply {x y : Nat} (h : m.display.contains x y) :
    flipPixel x y m = { machine := m.flip (Display.point x y), result := .ok () } := by
  rw [Machine.flip_point h]
  simp only [flipPixel, look_bind_apply, Display.get?_eq_some h, demand_some, pure_bind,
    setFlag_eq_change]
  cases m.display.lit x y <;>
    simp only [Bool.false_eq_true, if_true, if_false, look_bind_apply, change_bind_apply,
      Display.set?_eq_some h, demand_some, pure_bind, change_apply]

/-- Coordinates come from a byte register, so a sum with one is small. -/
theorem byte_add_lt {a b : Nat} (ha : a < 256) (hb : b ≤ memorySize) : a + b < wordLimit := by
  simp only [memorySize, wordLimit] at *
  omega

/-- Later columns do not come back to a point. -/
theorem rowPoints_of_point {left y column : Nat} {row : UInt8} {columns : List Nat}
    (h : ∀ c ∈ columns, column < c) (i j : Nat)
    (hpoint : Display.point (left + column) y i j = true) :
    Sprite.rowPoints left y row columns i j = false := by
  simp only [Display.point, Bool.and_eq_true, beq_iff_eq] at hpoint
  rw [← Bool.not_eq_true, Sprite.rowPoints_iff]
  rintro ⟨-, c, hc, hi, -⟩
  have hlater := h c hc
  omega

/-- The columns from one off the display on have no pixels. -/
theorem rowPoints_of_outside {left y column : Nat} {row : UInt8} {columns : List Nat}
    (hx : ¬ left + column < m.display.width) (h : ∀ c ∈ columns, column < c) (i j : Nat)
    (hij : m.display.contains i j) :
    Sprite.rowPoints left y row (column :: columns) i j = false := by
  simp only [Display.contains, Bool.and_eq_true, decide_eq_true_eq] at hij
  rw [← Bool.not_eq_true, Sprite.rowPoints_iff]
  rintro ⟨-, c, hc, hi, -⟩
  rcases List.mem_cons.1 hc with rfl | hc
  · omega
  · have hlater := h c hc
    omega

/-- The points of a row are flipped. The induction is on the columns that are left. -/
theorem drawRow_apply {left y : Nat} (row : UInt8) {columns : List Nat} (hl : left < 256)
    (hc : ∀ c ∈ columns, c < Sprite.width) (hs : columns.Pairwise (· < ·))
    (hy : y < m.display.height) :
    drawRow left y row columns m =
      { machine := m.flip (Sprite.rowPoints left y row columns), result := .ok () } := by
  induction columns generalizing m with
  | nil =>
    rw [Sprite.rowPoints_nil, Machine.flip_of_outside fun _ _ _ => rfl]
    rfl
  | cons column columns ih =>
    obtain ⟨hcol, hcols⟩ := List.forall_mem_cons.1 hc
    obtain ⟨hlater, hs⟩ := List.pairwise_cons.1 hs
    have hsum : left + column < wordLimit :=
      byte_add_lt hl (Nat.le_trans (Nat.le_of_lt hcol) (by decide))
    rw [drawRow, sum_eq_pure hsum, pure_bind, look_bind_apply]
    by_cases hx : left + column < m.display.width
    · rw [if_pos hx]
      by_cases hp : Sprite.hasPixel row column
      · have hon : m.display.contains (left + column) y := by simp [Display.contains, hx, hy]
        rw [if_pos hp, bind_of_apply (flipPixel_apply hon), Sprite.rowPoints_cons hp,
          ← Machine.flip_flip (rowPoints_of_point hlater)]
        exact ih hcols hs hy
      · rw [if_neg hp, Sprite.rowPoints_cons_of_blank hp]
        exact ih hcols hs hy
    · rw [if_neg hx, Machine.flip_of_outside (rowPoints_of_outside hx hlater)]
      rfl

/-- All points of a sprite are flipped. The induction is on the rows that are left. -/
theorem drawRows_apply {left top k : Nat} {rows : List UInt8} (hl : left < 256) (ht : top < 256)
    (hk : k + rows.length ≤ memorySize) :
    drawRows left top k rows m =
      { machine := m.flip (Sprite.points left (top + k) rows), result := .ok () } := by
  induction rows generalizing m k with
  | nil =>
    rw [Sprite.points_nil, Machine.flip_of_outside fun _ _ _ => rfl]
    rfl
  | cons row rows ih =>
    rw [List.length_cons] at hk
    rw [drawRows, sum_eq_pure (byte_add_lt ht (by omega)), pure_bind, look_bind_apply]
    by_cases hy : top + k < m.display.height
    · -- the rows below are elsewhere
      have hother : ∀ i j, Sprite.rowPoints left (top + k) row (List.range Sprite.width) i j = true →
          Sprite.points left (top + k + 1) rows i j = false := by
        intro i j hpoint
        obtain ⟨rfl, -⟩ := Sprite.rowPoints_iff.1 hpoint
        rw [← Bool.not_eq_true, Sprite.points_iff]
        rintro ⟨⟨-, -, hlow⟩, -⟩
        exact absurd hlow (Nat.not_succ_le_self _)
      have hrow := drawRow_apply row hl (fun c hc => List.mem_range.1 hc)
        (List.pairwise_lt_range (n := Sprite.width)) hy
      rw [if_pos hy, bind_of_apply hrow, Sprite.points_cons, ← Machine.flip_flip hother]
      exact ih (by omega)
    · have houtside : ∀ i j, m.display.contains i j →
          Sprite.points left (top + k) (row :: rows) i j = false := by
        intro i j hij
        simp only [Display.contains, Bool.and_eq_true, decide_eq_true_eq] at hij
        rw [← Bool.not_eq_true, Sprite.points_iff]
        rintro ⟨⟨-, -, hlow⟩, -⟩
        omega
      rw [if_neg hy, Machine.flip_of_outside houtside]
      rfl

/-! ## The whole sprite -/

/-- A sprite that lies in memory is drawn, with its top left corner at the point that the two
registers name. -/
theorem draw_apply {x y n : Nat} (hx : x < 16) (hy : y < 16) (h : m.index + n ≤ memorySize) :
    draw x y n m = { machine := m.drawn x y n, result := .ok () } := by
  simp only [draw, register_eq_look hx, register_eq_look hy, look_bind_apply, checkRange_eq_pure h,
    pure_bind, setFlag_eq_change, change_bind_apply, readBlock_eq_look h]
  refine drawRows_apply (UInt8.toNat_lt _) (UInt8.toNat_lt _) ?_
  rw [Bank.length_block h]
  omega

/-- Drawing a sprite that leaves memory fails before anything is written. -/
theorem draw_apply_outOfBounds {x y n : Nat} (hx : x < 16) (hy : y < 16) (hi : m.index < memorySize)
    (hn : n ≤ memorySize) (h : memorySize < m.index + n) :
    draw x y n m = { machine := m, result := .error (.outOfBounds m.index n) } := by
  simp only [draw, register_eq_look hx, register_eq_look hy, look_bind_apply,
    checkRange_eq_fail hi hn h, fail_bind, fail_apply]

end Work

/-! ## What a drawing touches -/

/-- The area of `n` rows of a sprite at a point. -/
def Sprite.area (left top n x y : Nat) : Prop :=
  (left ≤ x ∧ x < left + width) ∧ (top ≤ y ∧ y < top + n)

namespace Machine

variable {m : Machine} {x y n px py : Nat}

/-- The points of a sprite are the bits in memory that are set, within the area of the sprite. -/
theorem spritePoints_iff (h : m.index + n ≤ memorySize) :
    m.spritePoints x y n px py = true ↔
      Sprite.area (m.registers.cell x).toNat (m.registers.cell y).toNat n px py ∧
        Sprite.hasPixel (m.memory.cell (m.index + (py - (m.registers.cell y).toNat)))
          (px - (m.registers.cell x).toNat) = true := by
  rw [spritePoints, Sprite.points_iff, Sprite.area]
  constructor
  · rintro ⟨⟨hleft, hright, htop⟩, row, hrow, hpixel⟩
    rw [Bank.getElem?_block h, Option.ite_none_right_eq_some] at hrow
    obtain ⟨hlow, hrow⟩ := hrow
    obtain rfl := Option.some.inj hrow
    exact ⟨⟨⟨hleft, hright⟩, htop, by omega⟩, hpixel⟩
  · rintro ⟨⟨⟨hleft, hright⟩, htop, hlow⟩, hpixel⟩
    refine ⟨⟨hleft, hright, htop⟩, _, ?_, hpixel⟩
    rw [Bank.getElem?_block h, if_pos (by omega)]

/-- A drawing writes no register but the flag register. -/
theorem cell_drawn (m : Machine) (x y n : Nat) {r : Nat} (hr : r ≠ flagRegister) :
    (m.drawn x y n).registers.cell r = m.registers.cell r := by
  rw [drawn, flip]
  split
  · exact (Bank.cell_put_of_ne 1 hr).trans (Bank.cell_put_of_ne 0 hr)
  · exact Bank.cell_put_of_ne 0 hr

/-- A drawing leaves the pixels outside the area of its sprite. -/
theorem lit_drawn_of_outside (h : m.index + n ≤ memorySize)
    (hout : ¬ Sprite.area (m.registers.cell x).toNat (m.registers.cell y).toNat n px py) :
    (m.drawn x y n).display.lit px py = m.display.lit px py := by
  refine Display.lit_flip_of_not ?_
  rw [← Bool.not_eq_true, spritePoints_iff h]
  exact fun hpoint => hout hpoint.1

end Machine

end SpriteVM
