import Mathlib.Data.List.Induction
import SpriteVM.Proofs.Dumping
import SpriteVM.Proofs.Flipping

/-!
# The display as a grid

A display has three views: single pixels, rows and text. Here they are tied to one another and to
what was done to the display.

* `Display.Edit` is a change of a display, and `LastSet` says which state a pixel was last set to
  and not cleared from. A pixel has this state (`get?_of_lastSet`), or else it is unlit
  (`get?_of_not_lastSet`).
* The rows have the pixels at their points (`getElem?_rows`), whatever the size of the display.
* The text can be cut into lines again (`splitOn_text`), so it tells all pixels (`text_eq_iff`).

`Display.Faithful` collects what is seen of a display after a list of edits.
-/

namespace SpriteVM

namespace Display

/-! ## Edits -/

/-- A change of a display. -/
inductive Edit where
  /-- unlight every pixel -/
  | clear
  /-- light or unlight the pixel at a point -/
  | set (x y : Nat) (lit : Bool)
  deriving DecidableEq, Repr

/-- The display after an edit. To set a pixel off the grid is refused. -/
def edit? (d : Display) : Edit → Option Display
  | .clear => some d.clear
  | .set x y lit => d.set? x y lit

/-- Carries out an edit; a refused one changes nothing. -/
def edit (d : Display) (e : Edit) : Display :=
  (d.edit? e).getD d

/-- Carries out edits from the first to the last. -/
def editAll (d : Display) (es : List Edit) : Display :=
  es.foldl edit d

/-- Whether an edit gives the pixel at a point a state. -/
def Edit.settles (x y : Nat) : Edit → Bool
  | .clear => true
  | .set i j _ => i == x && j == y

/-- The pixel at a point was set to this state, and nothing was done to it since. -/
def LastSet (es : List Edit) (x y : Nat) (lit : Bool) : Prop :=
  ∃ before after, es = before ++ .set x y lit :: after ∧ ∀ e ∈ after, e.settles x y = false

variable {d d' : Display} {e : Edit} {es : List Edit} {x y i j w h : Nat} {lit : Bool}

/-- The edit that was last to give a pixel a state is found from the end. -/
theorem lastSet_iff :
    LastSet es x y lit ↔ es.reverse.find? (Edit.settles x y) = some (.set x y lit) := by
  rw [List.find?_eq_some_iff_append]
  constructor
  · rintro ⟨before, after, rfl, hafter⟩
    exact ⟨by simp [Edit.settles], after.reverse, before.reverse, by simp, by simpa using hafter⟩
  · rintro ⟨-, behind, ahead, hes, hbehind⟩
    refine ⟨ahead.reverse, behind.reverse, ?_, by simpa using hbehind⟩
    rw [← List.reverse_reverse es, hes]
    simp

instance : Decidable (LastSet es x y lit) :=
  decidable_of_iff _ lastSet_iff.symm

theorem editAll_append (d : Display) (es fs : List Edit) :
    d.editAll (es ++ fs) = (d.editAll es).editAll fs :=
  List.foldl_append

theorem size_edit (d : Display) (e : Edit) :
    (d.edit e).width = d.width ∧ (d.edit e).height = d.height := by
  cases e with
  | clear => exact ⟨rfl, rfl⟩
  | set x y lit => exact ⟨width_paint .., height_paint ..⟩

theorem size_editAll (d : Display) (es : List Edit) :
    (d.editAll es).width = d.width ∧ (d.editAll es).height = d.height := by
  induction es generalizing d with
  | nil => exact ⟨rfl, rfl⟩
  | cons e es ih =>
    obtain ⟨hw, hh⟩ := size_edit d e
    exact ⟨(ih (d.edit e)).1.trans hw, (ih (d.edit e)).2.trans hh⟩

theorem contains_iff : d.contains x y = true ↔ x < d.width ∧ y < d.height := by
  rw [contains, Bool.and_eq_true, decide_eq_true_eq, decide_eq_true_eq]

/-- A pixel off the grid cannot be set. -/
theorem set?_eq_none (h : ¬ (x < d.width ∧ y < d.height)) : d.set? x y lit = none := by
  rw [set?, if_neg (mt contains_iff.1 h)]

/-- A pixel off the grid cannot be read. -/
theorem get?_eq_none (h : ¬ (x < d.width ∧ y < d.height)) : d.get? x y = none := by
  rw [get?, if_neg (mt contains_iff.1 h)]

/-- An edit that does not settle a pixel leaves it. -/
theorem get?_edit_of_not_settles (h : e.settles x y = false) :
    (d.edit e).get? x y = d.get? x y := by
  cases e with
  | clear => cases h
  | set i j lit =>
    cases hset : d.set? i j lit with
    | none => rw [edit, edit?, hset, Option.getD_none]
    | some d' =>
      have hne : ¬ (x = i ∧ y = j) := by
        rintro ⟨rfl, rfl⟩
        simp [Edit.settles] at h
      rw [edit, edit?, hset, Option.getD_some, get?_set? hset, if_neg hne]

/-- **Run lemma.** A pixel stays while no edit settles it. -/
theorem get?_editAll_of_not_settles (h : ∀ e ∈ es, e.settles x y = false) :
    (d.editAll es).get? x y = d.get? x y := by
  induction es generalizing d with
  | nil => rfl
  | cons e es ih =>
    have hrest : (d.editAll (e :: es)).get? x y = (d.edit e).get? x y :=
      ih fun f hf => h f (List.mem_cons_of_mem _ hf)
    rw [hrest, get?_edit_of_not_settles (h e (List.mem_cons_self ..))]

theorem get?_edit_set (hx : x < d.width) (hy : y < d.height) (lit : Bool) :
    (d.edit (.set x y lit)).get? x y = some lit := by
  have hset := set?_eq_some (contains_iff.2 ⟨hx, hy⟩) lit
  rw [edit, edit?, hset, Option.getD_some, get?_set? hset, if_pos ⟨rfl, rfl⟩]

theorem get?_clear (hx : x < d.width) (hy : y < d.height) : d.clear.get? x y = some false := by
  rw [clear, get?_blank, if_pos ⟨hx, hy⟩]

/-- A pixel has the state that it was last set to. -/
theorem get?_of_lastSet (hx : x < d.width) (hy : y < d.height) (h : LastSet es x y lit) :
    (d.editAll es).get? x y = some lit := by
  obtain ⟨before, after, rfl, hafter⟩ := h
  obtain ⟨hw, hh⟩ := size_editAll d before
  have hset := get?_edit_set (d := d.editAll before) (hw ▸ hx) (hh ▸ hy) lit
  have hstays :=
    get?_editAll_of_not_settles (d := (d.editAll before).edit (.set x y lit)) hafter
  rw [editAll_append]
  exact hstays.trans hset

/-- A pixel that was not set since the last clearing is unlit. -/
theorem get?_of_not_lastSet (hx : x < w) (hy : y < h) (hno : ∀ lit, ¬ LastSet es x y lit) :
    ((blank w h).editAll es).get? x y = some false := by
  induction es using List.reverseRecOn with
  | nil => exact (get?_blank w h x y).trans (if_pos ⟨hx, hy⟩)
  | append_singleton es e ih =>
    have hlast : ((blank w h).editAll (es ++ [e])).get? x y =
        (((blank w h).editAll es).edit e).get? x y := by
      rw [editAll_append]
      rfl
    rw [hlast]
    cases he : e.settles x y with
    | true =>
      cases e with
      | clear =>
        obtain ⟨hw, hh⟩ := size_editAll (blank w h) es
        exact get?_clear (hw ▸ hx) (hh ▸ hy)
      | set i j lit =>
        obtain ⟨rfl, rfl⟩ : i = x ∧ j = y := by simpa [Edit.settles] using he
        exact absurd ⟨es, [], rfl, nofun⟩ (hno lit)
    | false =>
      rw [get?_edit_of_not_settles he]
      refine ih fun lit hset => hno lit ?_
      obtain ⟨before, after, rfl, hafter⟩ := hset
      refine ⟨before, after ++ [e], by rw [List.append_assoc, List.cons_append], fun f hf => ?_⟩
      rcases List.mem_append.1 hf with hf | hf
      · exact hafter f hf
      · rwa [List.mem_singleton.1 hf]

/-! ## Rows -/

theorem rows_eq_nil (h : d.width = 0 ∨ d.height = 0) : d.rows = [] := by
  have hsize : d.pixels.size = 0 := by
    rw [d.size_pixels]
    rcases h with h | h <;> simp [h]
  rw [rows, Array.toList_eq_nil_iff.2 (Array.eq_empty_of_size_eq_zero hsize), Layout.rows]

theorem length_toList_pixels (d : Display) : d.pixels.toList.length = d.width * d.height := by
  rw [Array.length_toList, d.size_pixels]

theorem length_rows (hw : 0 < d.width) : d.rows.length = d.height := by
  rw [rows, Layout.length_rows hw, length_toList_pixels, Nat.mul_add_div hw,
    Nat.div_eq_of_lt (Nat.sub_one_lt_of_lt hw), Nat.add_zero]

theorem length_of_mem_rows {row : List Bool} (h : row ∈ d.rows) : row.length = d.width := by
  rcases Nat.eq_zero_or_pos d.width with hw | hw
  · rw [rows_eq_nil (.inl hw)] at h
    cases h
  · exact Layout.length_of_mem_rows hw ⟨d.height, d.length_toList_pixels⟩ h

/-- The pixel at a point stands in its row. -/
theorem getElem?_rows (d : Display) (x y : Nat) :
    (d.rows[y]?.bind fun row => row[x]?) = d.get? x y := by
  rcases Nat.eq_zero_or_pos d.width with hw | hw
  · rw [rows_eq_nil (.inl hw), get?_eq_none fun h => by omega]
    rfl
  · have hrow : d.width * y < d.width * d.height ↔ y < d.height := Nat.mul_lt_mul_left hw
    rw [rows, Layout.getElem?_rows hw, length_toList_pixels]
    by_cases hy : y < d.height
    · rw [if_pos (hrow.2 hy), Option.bind_some, List.getElem?_take, List.getElem?_drop,
        Array.getElem?_toList, Nat.mul_comm]
      simp [get?, contains, hy]
    · rw [if_neg (mt hrow.1 hy), get?_eq_none fun hgrid => hy hgrid.2, Option.bind_none]

/-! ## Text -/

theorem pixelChar_inj {a b : Bool} (h : pixelChar a = pixelChar b) : a = b := by
  revert a b
  decide

theorem lineFeed_ne_pixelChar (lit : Bool) : '\n' ≠ pixelChar lit := by
  cases lit <;> decide

/-- The lines of the text are the rows. -/
theorem splitOn_text (hw : 0 < d.width) (hh : 0 < d.height) :
    d.text.toList.splitOn '\n' = d.rows.map fun row => row.map pixelChar := by
  have hne : d.rows ≠ [] := by
    rw [← List.length_pos_iff, length_rows hw]
    exact hh
  rw [text, Layout.splitOn_stack ?_ (by rwa [ne_eq, List.map_eq_nil_iff]), List.map_map]
  · exact List.map_congr_left fun row _ => String.toList_ofList
  · intro line hline
    obtain ⟨row, -, rfl⟩ := List.mem_map.1 hline
    rw [OnOneLine, String.toList_ofList, List.mem_map]
    rintro ⟨lit, -, hlit⟩
    exact lineFeed_ne_pixelChar lit hlit.symm

/-- Displays of one size have the same text when they have the same pixels. -/
theorem text_eq_iff (hw : d.width = d'.width) (hh : d.height = d'.height) :
    d.text = d'.text ↔ ∀ x y, d.get? x y = d'.get? x y := by
  constructor
  · intro htext x y
    by_cases hgrid : x < d.width ∧ y < d.height
    · have hpos := Nat.zero_lt_of_lt hgrid.1
      have hpos' := Nat.zero_lt_of_lt hgrid.2
      have hlines : d.text.toList.splitOn '\n' = d'.text.toList.splitOn '\n' := by rw [htext]
      rw [splitOn_text hpos hpos', splitOn_text (hw ▸ hpos) (hh ▸ hpos')] at hlines
      have hrows : d.rows = d'.rows :=
        (List.map_inj_right fun _ _ =>
          (List.map_inj_right fun _ _ => pixelChar_inj).1).1 hlines
      rw [← getElem?_rows, hrows, getElem?_rows]
    · rw [get?_eq_none hgrid, get?_eq_none (hw ▸ hh ▸ hgrid)]
  · intro h
    rw [eq_of_get? hw hh h]

/-! ## The three views after edits -/

/-- What is seen of a display with `w` columns and `h` rows after some edits. -/
structure Faithful (d : Display) (w h : Nat) (es : List Edit) : Prop where
  /-- the display has its width -/
  width : d.width = w
  /-- the display has its height -/
  height : d.height = h
  /-- the place of a pixel is a machine word when the number of pixels is one -/
  place : w * h < Numeral.wordLimit → ∀ x y, x < w → y < h → y * w + x < Numeral.wordLimit
  /-- a pixel has the state that it was last set to since the last clearing -/
  lastSet : ∀ x y lit, x < w → y < h → LastSet es x y lit → d.get? x y = some lit
  /-- a pixel that was not set since then is unlit -/
  unset : ∀ x y, x < w → y < h → (∀ lit, ¬ LastSet es x y lit) → d.get? x y = some false
  /-- to set a pixel leaves all others -/
  apart : ∀ x y lit i j, (i, j) ≠ (x, y) → (d.edit (.set x y lit)).get? i j = d.get? i j
  /-- off the grid there is no pixel to read or to set, and to try changes nothing -/
  refused : ∀ x y, ¬ (x < w ∧ y < h) →
    d.get? x y = none ∧ ∀ lit, d.edit? (.set x y lit) = none ∧ d.edit (.set x y lit) = d
  /-- on the grid every pixel can be set -/
  accepted : ∀ x y lit, x < w → y < h → (d.edit? (.set x y lit)).isSome
  /-- there are no rows without pixels -/
  noRows : w = 0 ∨ h = 0 → d.rows = []
  /-- there are as many rows as the display is high -/
  rowCount : 0 < w → d.rows.length = h
  /-- the rows are as long as the display is wide -/
  rowLength : ∀ row ∈ d.rows, row.length = w
  /-- a pixel stands at its place in its row, and there is nothing else in the rows -/
  rowPixel : ∀ x y, (d.rows[y]?.bind fun row => row[x]?) = d.get? x y
  /-- the text has a line for each row and a character for each pixel -/
  text : d.text = "\n".intercalate
    (d.rows.map fun row => String.ofList (row.map fun lit => if lit then 'x' else '.'))

/-- **The display is a faithful grid.** Begin with an unlit display of any size and carry out any
edits. Every pixel has the state that it was last set to since the display was last cleared, and is
unlit if it was not set since then; no pixel is ever touched by what is done to another one. The
rows and the text show the same pixels in their places, and where there are no pixels there are no
rows. Off the grid nothing can be read or set. Two displays of one size, however they came about,
have the same text just when they have the same pixels. -/
theorem grid_faithful :
    (∀ w h es, ((blank w h).editAll es).Faithful w h es) ∧
    ∀ d d' : Display, d.width = d'.width → d.height = d'.height →
      (d.text = d'.text ↔ ∀ x y, d.get? x y = d'.get? x y) := by
  refine ⟨fun w h es => ?_, fun d d' => text_eq_iff⟩
  obtain ⟨hw, hh⟩ : ((blank w h).editAll es).width = w ∧ ((blank w h).editAll es).height = h :=
    size_editAll (blank w h) es
  generalize hd : (blank w h).editAll es = d at hw hh
  constructor
  case width => exact hw
  case height => exact hh
  case place =>
    intro hlimit x y hx hy
    have hplace := index_lt (d := d) (contains_iff.2 ⟨hw ▸ hx, hh ▸ hy⟩)
    rw [d.size_pixels, hw, hh] at hplace
    exact Nat.lt_trans hplace hlimit
  case lastSet =>
    intro x y lit hx hy hset
    rw [← hd]
    exact get?_of_lastSet (d := blank w h) hx hy hset
  case unset =>
    intro x y hx hy hno
    rw [← hd]
    exact get?_of_not_lastSet hx hy hno
  case apart =>
    intro x y lit i j hne
    refine get?_edit_of_not_settles ?_
    rw [Edit.settles, ← Bool.not_eq_true, Bool.and_eq_true, beq_iff_eq, beq_iff_eq]
    rintro ⟨rfl, rfl⟩
    exact hne rfl
  case refused =>
    intro x y hoff
    rw [← hw, ← hh] at hoff
    refine ⟨get?_eq_none hoff, fun lit => ⟨set?_eq_none hoff, ?_⟩⟩
    rw [edit, edit?, set?_eq_none hoff, Option.getD_none]
  case accepted =>
    intro x y lit hx hy
    rw [edit?, set?_eq_some (contains_iff.2 ⟨hw ▸ hx, hh ▸ hy⟩)]
    rfl
  case noRows => exact fun h => rows_eq_nil (hw ▸ hh ▸ h)
  case rowCount => exact fun h => (length_rows (hw ▸ h)).trans hh
  case rowLength => exact fun row hrow => (length_of_mem_rows hrow).trans hw
  case rowPixel => exact d.getElem?_rows
  case text => rfl

/-- A pixel that was cleared, two that were set, and one beyond the end of its row, whose place in
the storage would be that of the first pixel of the next row. -/
theorem grid_faithful_edges :
    let es : List Edit := [.set 0 0 true, .clear, .set 1 0 true, .set 4 0 true, .set 3 1 true]
    let d := (blank 4 2).editAll es
    d.get? 1 0 = some true ∧ d.get? 0 0 = some false ∧ d.get? 0 1 = some false ∧
      d.get? 4 0 = none ∧ d.edit (.set 4 0 true) = d ∧ d.rows.length = 2 ∧
      d.text = ".x..\n...x" ∧ d.text ≠ d.clear.text ∧ ((blank 0 4).editAll es).rows = [] := by
  intro es d
  have hd := grid_faithful.1 4 2 es
  have hoff := hd.refused 4 0 (by decide)
  refine ⟨hd.lastSet 1 0 true (by decide) (by decide) (by decide),
    hd.unset 0 0 (by decide) (by decide) (by decide),
    hd.unset 0 1 (by decide) (by decide) (by decide), hoff.1, (hoff.2 true).2,
    hd.rowCount (by decide), hd.text.trans (by decide +kernel), ?_, ?_⟩
  · intro htext
    have hpixel := (grid_faithful.2 d d.clear rfl rfl).1 htext 1 0
    exact absurd hpixel (by decide)
  · exact (grid_faithful.1 0 4 es).noRows (.inl rfl)

end Display

end SpriteVM
