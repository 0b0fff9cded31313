import SpriteVM.Machine.Basic
import SpriteVM.Sprite

/-!
# Flipped pixels

A drawing flips pixels one by one. Here the pixels at all points of a set are flipped at once, and
the loops of a drawing turn out to be such flips.

* `Display.flip` is told by the view `get?`, and one flip after another is a flip (`flip_flip`).
* `Machine.flip` raises the flag besides, if a lit pixel is among them. Flips at sets that have no
  point in common are one flip at all their points (`Machine.flip_flip`), and what is off the grid
  does not count (`Machine.flip_congr`).
* `Sprite.points` is the set of the points of a sprite, and it is made up of the points of its rows
  (`Sprite.points_cons`).
-/

namespace SpriteVM

namespace Display

variable {d e : Display} {points points' : Nat → Nat → Bool} {x y : Nat}

/-- A display is known by its size and its pixels. -/
theorem eq_of_get? (hw : d.width = e.width) (hh : d.height = e.height)
    (h : ∀ x y, d.get? x y = e.get? x y) : d = e := by
  obtain ⟨w, height, pixels, hsize⟩ := d
  obtain ⟨w', height', pixels', hsize'⟩ := e
  obtain rfl : w = w' := hw
  obtain rfl : height = height' := hh
  have hpixels : pixels = pixels' := by
    refine Array.ext (hsize.trans hsize'.symm) fun i hi hi' => ?_
    have hpos : 0 < w := by
      rcases Nat.eq_zero_or_pos w with rfl | hpos
      · rw [hsize, Nat.zero_mul] at hi
        exact absurd hi (Nat.not_lt_zero i)
      · exact hpos
    -- place `i` is that of a point
    have hx : i % w < w := Nat.mod_lt i hpos
    have hy : i / w < height := Nat.div_lt_of_lt_mul (hsize ▸ hi)
    have hplace : i / w * w + i % w = i := by
      rw [Nat.mul_comm]
      exact Nat.div_add_mod i w
    have hpoint := h (i % w) (i / w)
    simpa [get?, contains, hx, hy, hplace, hi, hi'] using hpoint
  subst hpixels
  rfl

/-- Nothing is lit off the grid. -/
theorem lit_eq_false (h : d.contains x y = false) : d.lit x y = false := by
  rw [lit, get?, h, if_neg Bool.false_ne_true, Option.getD_none]

theorem contains_of_lit (h : d.lit x y = true) : d.contains x y = true := by
  rw [← Bool.not_eq_false]
  intro hoff
  rw [lit_eq_false hoff] at h
  cases h

/-! ## Flips -/

/-- The display with the pixels at some points flipped. There are no pixels off the grid. -/
def flip (d : Display) (points : Nat → Nat → Bool) : Display where
  width := d.width
  height := d.height
  pixels := d.pixels.mapIdx fun i lit => lit ^^ points (i % d.width) (i / d.width)
  size_pixels := by rw [Array.size_mapIdx, d.size_pixels]

/-- A flip is seen at its own points. -/
theorem get?_flip (d : Display) (points : Nat → Nat → Bool) (x y : Nat) :
    (d.flip points).get? x y = (d.get? x y).map (· ^^ points x y) := by
  have hgrid : (d.flip points).contains x y = d.contains x y := rfl
  unfold get?
  rw [hgrid]
  split
  · next h =>
    simp only [contains, Bool.and_eq_true, decide_eq_true_eq] at h
    have hmod : (y * d.width + x) % d.width = x := by
      rw [Nat.add_comm, Nat.add_mul_mod_self_right, Nat.mod_eq_of_lt h.1]
    have hdiv : (y * d.width + x) / d.width = y := by
      rw [Nat.add_comm, Nat.add_mul_div_right _ _ (Nat.zero_lt_of_lt h.1), Nat.div_eq_of_lt h.1,
        Nat.zero_add]
    simp [flip, hmod, hdiv]
  · rfl

theorem lit_flip (h : d.contains x y) : (d.flip points).lit x y = (d.lit x y ^^ points x y) := by
  rw [lit, get?_flip, get?_eq_some h, Option.map_some, Option.getD_some]

/-- A flip leaves the pixels at other points. -/
theorem lit_flip_of_not (h : points x y = false) : (d.flip points).lit x y = d.lit x y := by
  cases hgrid : d.contains x y with
  | true => rw [lit_flip hgrid, h, Bool.xor_false]
  | false => rw [lit_eq_false hgrid, lit_eq_false (d := d.flip points) hgrid]

/-- The points off the grid do not count. -/
theorem flip_congr (h : ∀ x y, d.contains x y → points x y = points' x y) :
    d.flip points = d.flip points' := by
  refine eq_of_get? rfl rfl fun x y => ?_
  rw [get?_flip, get?_flip]
  cases hxy : d.contains x y with
  | true => rw [h x y hxy]
  | false =>
    have hnone : d.get? x y = none := by rw [get?, hxy, if_neg Bool.false_ne_true]
    rw [hnone, Option.map_none, Option.map_none]

/-- Where two flips meet the pixels are as they were. -/
theorem flip_flip (d : Display) (points points' : Nat → Nat → Bool) :
    (d.flip points).flip points' = d.flip fun x y => points x y ^^ points' x y := by
  refine eq_of_get? rfl rfl fun x y => ?_
  rw [get?_flip, get?_flip, get?_flip, Option.map_map]
  simp only [Function.comp_def, Bool.xor_assoc]

theorem flip_nowhere (d : Display) : (d.flip fun _ _ => false) = d := by
  refine eq_of_get? rfl rfl fun x y => ?_
  rw [get?_flip]
  simp only [Bool.xor_false, Option.map_id']

/-- A single point. -/
def point (x y : Nat) : Nat → Nat → Bool :=
  fun i j => i == x && j == y

/-- To flip one pixel is to paint it. -/
theorem paint_eq_flip (h : d.contains x y) : d.paint x y (!d.lit x y) = d.flip (point x y) := by
  refine eq_of_get? (width_paint ..) (height_paint ..) fun i j => ?_
  rw [get?_set? (set?_eq_some h _), get?_flip, point]
  by_cases hij : i = x ∧ j = y
  · obtain ⟨rfl, rfl⟩ := hij
    simp [get?_eq_some h]
  · have hne : (i == x && j == y) = false := by simpa using hij
    simp [hij, hne]

/-! ## Lit pixels among points -/

/-- Whether a lit pixel is among some points. -/
def meets (d : Display) (points : Nat → Nat → Bool) : Bool :=
  (List.range d.height).any fun y => (List.range d.width).any fun x => points x y && d.lit x y

theorem meets_iff : d.meets points = true ↔ ∃ x y, points x y = true ∧ d.lit x y = true := by
  simp only [meets, List.any_eq_true, List.mem_range, Bool.and_eq_true]
  constructor
  · rintro ⟨y, -, x, -, h⟩
    exact ⟨x, y, h⟩
  · rintro ⟨x, y, hpoint, hlit⟩
    have hgrid := contains_of_lit hlit
    simp only [contains, Bool.and_eq_true, decide_eq_true_eq] at hgrid
    exact ⟨y, hgrid.2, x, hgrid.1, hpoint, hlit⟩

theorem meets_congr (h : ∀ x y, d.contains x y → points x y = points' x y) :
    d.meets points = d.meets points' := by
  refine Bool.eq_iff_iff.2 ?_
  rw [meets_iff, meets_iff]
  refine exists₂_congr fun x y => and_congr_left fun hlit => ?_
  rw [h x y (contains_of_lit hlit)]

theorem meets_nowhere (d : Display) : (d.meets fun _ _ => false) = false := by
  simp [meets]

theorem meets_point (x y : Nat) : d.meets (point x y) = d.lit x y := by
  refine Bool.eq_iff_iff.2 ?_
  rw [meets_iff]
  constructor
  · rintro ⟨i, j, hpoint, hlit⟩
    simp only [point, Bool.and_eq_true, beq_iff_eq] at hpoint
    obtain ⟨rfl, rfl⟩ := hpoint
    exact hlit
  · intro hlit
    exact ⟨x, y, by simp [point], hlit⟩

/-- What a flip meets after another one at other points, it met before. -/
theorem meets_flip (h : ∀ x y, points x y = true → points' x y = false) :
    (d.meets points || (d.flip points).meets points') =
      d.meets fun x y => points x y || points' x y := by
  have hsame : ∀ x y, points' x y = true → (d.flip points).lit x y = d.lit x y := by
    intro x y hpoint
    refine lit_flip_of_not ?_
    rw [← Bool.not_eq_true]
    intro hpoint'
    cases hpoint.symm.trans (h x y hpoint')
  refine Bool.eq_iff_iff.2 ?_
  simp only [Bool.or_eq_true, meets_iff]
  constructor
  · rintro (⟨x, y, hpoint, hlit⟩ | ⟨x, y, hpoint, hlit⟩)
    · exact ⟨x, y, .inl hpoint, hlit⟩
    · exact ⟨x, y, .inr hpoint, (hsame x y hpoint).symm.trans hlit⟩
  · rintro ⟨x, y, hpoint | hpoint, hlit⟩
    · exact .inl ⟨x, y, hpoint, hlit⟩
    · exact .inr ⟨x, y, hpoint, (hsame x y hpoint).trans hlit⟩

end Display

namespace Machine

variable {m : Machine} {points points' : Nat → Nat → Bool} {x y : Nat}

/-! ## Flips of a machine -/

/-- The machine with the pixels at some points flipped, and the flag raised if one of them was
lit. -/
def flip (m : Machine) (points : Nat → Nat → Bool) : Machine :=
  { m with
    display := m.display.flip points
    registers := if m.display.meets points then m.registers.put flagRegister 1 else m.registers }

/-- The points off the grid do not count. -/
theorem flip_congr (h : ∀ x y, m.display.contains x y → points x y = points' x y) :
    m.flip points = m.flip points' := by
  rw [flip, Display.flip_congr h, Display.meets_congr h, flip]

/-- Nothing happens where there is no pixel. -/
theorem flip_of_outside (h : ∀ x y, m.display.contains x y → points x y = false) :
    m.flip points = m := by
  have hnowhere : m.flip points = m.flip fun _ _ => false := flip_congr h
  rw [hnowhere, flip, Display.flip_nowhere, Display.meets_nowhere, if_neg Bool.false_ne_true]

/-- Flips at other points make one flip. -/
theorem flip_flip (h : ∀ x y, points x y = true → points' x y = false) :
    (m.flip points).flip points' = m.flip fun x y => points x y || points' x y := by
  have hpoints : (fun x y => points x y ^^ points' x y) = fun x y => points x y || points' x y := by
    funext x y
    cases hpoint : points x y with
    | true => rw [h x y hpoint, Bool.xor_false, Bool.or_false]
    | false => rw [Bool.false_xor, Bool.false_or]
  have hdisplay : ((m.flip points).flip points').display =
      m.display.flip fun x y => points x y || points' x y :=
    (Display.flip_flip ..).trans (congrArg _ hpoints)
  -- once the flag is up it stays up
  have hregisters : ((m.flip points).flip points').registers =
      if m.display.meets points || (m.display.flip points).meets points' then
        m.registers.put flagRegister 1
      else m.registers := by
    rw [flip, flip]
    cases m.display.meets points <;> cases (m.display.flip points).meets points' <;>
      simp [Bank.put_put]
  rw [Display.meets_flip h] at hregisters
  calc (m.flip points).flip points'
      = { m with
          display := ((m.flip points).flip points').display
          registers := ((m.flip points).flip points').registers } := rfl
    _ = m.flip fun x y => points x y || points' x y := by rw [hdisplay, hregisters, flip]

/-- The machine with one pixel flipped. -/
theorem flip_point (h : m.display.contains x y) :
    m.flip (Display.point x y) =
      { m with
        display := m.display.paint x y (!m.display.lit x y)
        registers := if m.display.lit x y then m.registers.put flagRegister 1 else m.registers } := by
  rw [flip, Display.meets_point, Display.paint_eq_flip h]

end Machine

/-! ## The points of a sprite -/

namespace Sprite

variable {left top y i j : Nat} {row : UInt8} {rows : List UInt8} {columns : List Nat}

/-- The points of the given columns of one row of a sprite. -/
def rowPoints (left y : Nat) (row : UInt8) (columns : List Nat) (i j : Nat) : Bool :=
  j == y && columns.any fun column => i == left + column && hasPixel row column

/-- The points of a sprite with its top left corner at `(left, top)`. -/
def points (left top : Nat) (rows : List UInt8) (i j : Nat) : Bool :=
  decide (left ≤ i ∧ i < left + width ∧ top ≤ j) &&
    (rows[j - top]?).any fun row => hasPixel row (i - left)

theorem rowPoints_iff : rowPoints left y row columns i j = true ↔
    j = y ∧ ∃ column ∈ columns, i = left + column ∧ hasPixel row column = true := by
  simp only [rowPoints, Bool.and_eq_true, beq_iff_eq, List.any_eq_true]

theorem points_iff : points left top rows i j = true ↔
    (left ≤ i ∧ i < left + width ∧ top ≤ j) ∧
      ∃ row, rows[j - top]? = some row ∧ hasPixel row (i - left) = true := by
  simp only [points, Bool.and_eq_true, decide_eq_true_eq, Option.any_eq_true]

theorem rowPoints_nil (left y : Nat) (row : UInt8) :
    rowPoints left y row [] = fun _ _ => false := by
  funext i j
  rw [rowPoints, List.any_nil, Bool.and_false]

/-- A pixel of a row is one point of it. -/
theorem rowPoints_cons {column : Nat} (h : hasPixel row column = true) :
    rowPoints left y row (column :: columns) =
      fun i j => Display.point (left + column) y i j || rowPoints left y row columns i j := by
  funext i j
  simp only [rowPoints, Display.point, List.any_cons, h, Bool.and_true, Bool.and_or_distrib_left,
    Bool.and_comm (j == y) (i == left + column)]

/-- A column without a pixel is of no account. -/
theorem rowPoints_cons_of_blank {column : Nat} (h : ¬ hasPixel row column = true) :
    rowPoints left y row (column :: columns) = rowPoints left y row columns := by
  funext i j
  simp only [rowPoints, List.any_cons, h, Bool.and_false, Bool.false_or]

theorem points_nil (left top : Nat) : points left top [] = fun _ _ => false := by
  funext i j
  simp only [points, List.getElem?_nil, Option.any_none, Bool.and_false]

/-- The points of a sprite are those of its first row and those of the sprite below it. -/
theorem points_cons : points left top (row :: rows) =
    fun i j => rowPoints left top row (List.range width) i j || points left (top + 1) rows i j := by
  funext i j
  refine Bool.eq_iff_iff.2 ?_
  rw [Bool.or_eq_true, points_iff, rowPoints_iff, points_iff]
  constructor
  · rintro ⟨⟨hleft, hright, htop⟩, row', hrow, hpixel⟩
    rcases Nat.eq_or_lt_of_le htop with rfl | hlow
    · rw [Nat.sub_self, List.getElem?_cons_zero] at hrow
      obtain rfl := Option.some.inj hrow
      exact .inl ⟨rfl, i - left, List.mem_range.2 (by omega), by omega, hpixel⟩
    · have hplace : j - top = j - (top + 1) + 1 := by omega
      rw [hplace, List.getElem?_cons_succ] at hrow
      exact .inr ⟨⟨hleft, hright, hlow⟩, row', hrow, hpixel⟩
  · rintro (⟨rfl, column, hcolumn, rfl, hpixel⟩ | ⟨⟨hleft, hright, hlow⟩, row', hrow, hpixel⟩)
    · have hcolumn := List.mem_range.1 hcolumn
      refine ⟨⟨Nat.le_add_right .., Nat.add_lt_add_left hcolumn _, Nat.le_refl _⟩, row, ?_, ?_⟩
      · rw [Nat.sub_self, List.getElem?_cons_zero]
      · rwa [Nat.add_sub_cancel_left]
    · have hplace : j - top = j - (top + 1) + 1 := by omega
      refine ⟨⟨hleft, hright, Nat.le_of_succ_le hlow⟩, row', ?_, hpixel⟩
      rw [hplace, List.getElem?_cons_succ]
      exact hrow

end Sprite

end SpriteVM
