import SpriteVM.Text.Layout

/-!
# Display

A grid of pixels, each lit or not, with the origin at the top left. The pixels are stored row by
row. Reading and writing a pixel outside the grid is refused, so `get?` is a complete view of a
display and `set?` changes exactly one point of it.
-/

namespace SpriteVM

/-- A black-and-white display. -/
structure Display where
  /-- the pixels in a row -/
  width : Nat
  /-- the number of rows -/
  height : Nat
  /-- the states of the pixels, the rows one after the other -/
  pixels : Array Bool
  /-- every point of the grid has a pixel -/
  size_pixels : pixels.size = width * height
  deriving DecidableEq

namespace Display

/-- A display with no pixel lit. -/
def blank (width height : Nat) : Display where
  width := width
  height := height
  pixels := Array.replicate (width * height) false
  size_pixels := by simp

/-- The display that the machine usually draws to. -/
def standard : Display :=
  blank 64 32

/-- Whether a point lies on the grid. -/
def contains (d : Display) (x y : Nat) : Bool :=
  x < d.width && y < d.height

/-- The state of the pixel at a point of the grid. -/
def get? (d : Display) (x y : Nat) : Option Bool :=
  if d.contains x y then d.pixels[y * d.width + x]? else none

/-- The display with the pixel at a point of the grid lit or unlit. -/
def set? (d : Display) (x y : Nat) (lit : Bool) : Option Display :=
  if d.contains x y then
    some { d with
      pixels := d.pixels.setIfInBounds (y * d.width + x) lit
      size_pixels := by simp [d.size_pixels] }
  else none

/-- Whether the pixel at a point is lit; off the grid there is none that could be. -/
def lit (d : Display) (x y : Nat) : Bool :=
  (d.get? x y).getD false

/-- The display with the pixel at a point lit or unlit; nothing changes off the grid. -/
def paint (d : Display) (x y : Nat) (lit : Bool) : Display :=
  (d.set? x y lit).getD d

/-- Unlights every pixel. -/
def clear (d : Display) : Display :=
  blank d.width d.height

/-- The rows of pixels from top to bottom. A display without pixels has no rows. -/
def rows (d : Display) : List (List Bool) :=
  Layout.rows d.width d.pixels.toList

/-- The character for a pixel. -/
def pixelChar (lit : Bool) : Char :=
  if lit then 'x' else '.'

/-- The display as text, one line for each row. -/
def text (d : Display) : String :=
  Layout.stack (d.rows.map fun row => String.ofList (row.map pixelChar))

/-- The display with further points lit; `none` when one of them is not on the grid. -/
def light? (d : Display) (points : List (Nat × Nat)) : Option Display :=
  points.foldlM (fun d p => d.set? p.1 p.2 true) d

/-! ## What the operations do to the view `get?` -/

/-- The place of a point of the grid is a place of the storage. -/
theorem index_lt {d : Display} {x y : Nat} (h : d.contains x y) :
    y * d.width + x < d.pixels.size := by
  simp only [contains, Bool.and_eq_true, decide_eq_true_eq] at h
  have := Nat.mul_le_mul_right d.width (Nat.succ_le_of_lt h.2)
  rw [Nat.succ_mul] at this
  rw [d.size_pixels, Nat.mul_comm d.width]
  omega

/-- Different points have different places, as long as they lie within a row. -/
theorem index_inj {w x y i j : Nat} (hx : x < w) (hi : i < w) (h : y * w + x = j * w + i) :
    x = i ∧ y = j := by
  have hw : 0 < w := by omega
  have hdiv := congrArg (· / w) h
  simp only [Nat.add_comm (_ * w), Nat.add_mul_div_right _ _ hw, Nat.div_eq_of_lt hx,
    Nat.div_eq_of_lt hi, Nat.zero_add] at hdiv
  subst hdiv
  omega

/-- Exactly the points of the grid can be read. -/
theorem get?_isSome {d : Display} {x y : Nat} : (d.get? x y).isSome = d.contains x y := by
  unfold get?
  split
  · next h => simp [index_lt h, h]
  · next h => simp [h]

/-- A point of the grid has a pixel. -/
theorem get?_eq_some {d : Display} {x y : Nat} (h : d.contains x y) :
    d.get? x y = some (d.lit x y) := by
  obtain ⟨v, hv⟩ := Option.isSome_iff_exists.1 ((get?_isSome (d := d)).trans h)
  rw [lit, hv, Option.getD_some]

theorem set?_eq_some {d : Display} {x y : Nat} (h : d.contains x y) (lit : Bool) :
    d.set? x y lit = some (d.paint x y lit) := by
  simp [paint, set?, h]

@[simp] theorem width_paint (d : Display) (x y : Nat) (lit : Bool) :
    (d.paint x y lit).width = d.width := by
  unfold paint set?
  split <;> rfl

@[simp] theorem height_paint (d : Display) (x y : Nat) (lit : Bool) :
    (d.paint x y lit).height = d.height := by
  unfold paint set?
  split <;> rfl

/-- A write leaves the grid as it is. -/
theorem contains_set? {d e : Display} {x y : Nat} {lit : Bool} (h : d.set? x y lit = some e)
    (i j : Nat) : e.contains i j = d.contains i j := by
  unfold set? at h
  split at h
  · cases h; rfl
  · cases h

/-- A write changes its own point. -/
theorem get?_set? {d e : Display} {x y : Nat} {lit : Bool} (h : d.set? x y lit = some e)
    (i j : Nat) : e.get? i j = if i = x ∧ j = y then some lit else d.get? i j := by
  have hc := contains_set? h i j
  unfold set? at h
  split at h
  · next hxy =>
    cases h
    have hlt := index_lt hxy
    by_cases hij : d.contains i j
    · simp only [get?, hc, hij, if_true, Array.getElem?_setIfInBounds, hlt]
      simp only [contains, Bool.and_eq_true, decide_eq_true_eq] at hxy hij
      by_cases he : y * d.width + x = j * d.width + i
      · obtain ⟨rfl, rfl⟩ := index_inj hxy.1 hij.1 he
        simp
      · rw [if_neg he, if_neg]
        rintro ⟨rfl, rfl⟩
        exact he rfl
    · have hne : ¬(i = x ∧ j = y) := by
        rintro ⟨rfl, rfl⟩
        exact hij hxy
      simp [get?, hc, hij, hne]
  · cases h

/-- No point of a blank display is lit. -/
theorem get?_blank (w h x y : Nat) :
    (blank w h).get? x y = if x < w ∧ y < h then some false else none := by
  have hb : (blank w h).contains x y = (decide (x < w) && decide (y < h)) := rfl
  unfold get?
  by_cases hc : x < w ∧ y < h
  · have hi := @index_lt (blank w h) x y (by simp [hb, hc])
    simp_all [blank]
  · have hn : (blank w h).contains x y = false := by grind
    simp [hn, hc]

end Display

end SpriteVM
