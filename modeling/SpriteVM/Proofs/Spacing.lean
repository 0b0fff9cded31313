import SpriteVM.Text.Blank

/-!
# Words between blanks

`Blank.Spaced` relates a text to the words that it is made of. They stand in it one behind the
other, with blanks between any two of them and perhaps some at both ends. Every text is made of words
in exactly one way, the one that `Blank.words` finds (`spaced_iff`).
-/

namespace SpriteVM.Blank

variable {gap w rest : List Char} {ws : List (List Char)} {c : Char}

/-- The code points of the characters with the property `White_Space`, one by one. -/
def codePoints : List Nat :=
  [0x9, 0xA, 0xB, 0xC, 0xD, 0x20, 0x85, 0xA0, 0x1680, 0x2000, 0x2001, 0x2002, 0x2003, 0x2004,
    0x2005, 0x2006, 0x2007, 0x2008, 0x2009, 0x200A, 0x2028, 0x2029, 0x202F, 0x205F, 0x3000]

/-- Blanks are the characters with these code points. -/
theorem isBlank_iff : isBlank c = true ↔ c.toNat ∈ codePoints := by
  simp only [isBlank, ranges, codePoints, List.any_cons, List.any_nil, Bool.or_false,
    Bool.or_eq_true, Bool.and_eq_true, decide_eq_true_eq, List.mem_cons, List.not_mem_nil, or_false]
  omega

/-- A stretch of characters that are not blank, at least one of them. -/
structure IsWord (w : List Char) : Prop where
  /-- there is a character -/
  ne_nil : w ≠ []
  /-- no character is blank -/
  isBlank_eq_false : ∀ c ∈ w, isBlank c = false

/-- A text that ends here or goes on with a blank, so that a word in front of it ends. -/
def EndsWord (rest : List Char) : Prop :=
  ∀ c ∈ rest.head?, isBlank c = true

/-- A text is made of words. -/
inductive Spaced : List Char → List (List Char) → Prop where
  /-- blanks only -/
  | nil {gap : List Char} (hgap : allBlank gap = true) : Spaced gap []
  /-- blanks, a word, and a text after it -/
  | cons {gap w rest : List Char} {ws : List (List Char)} (hgap : allBlank gap = true)
      (hw : IsWord w) (hend : EndsWord rest) (hrest : Spaced rest ws) :
      Spaced (gap ++ (w ++ rest)) (w :: ws)

/-! ## Finding the words -/

theorem endsWord_nil : EndsWord [] := nofun

theorem endsWord_cons (h : isBlank c = true) (rest : List Char) : EndsWord (c :: rest) := by
  rintro _ ⟨⟩
  exact h

theorem words_eq (cs : List Char) :
    words cs = if (split cs).1 = [] then (split cs).2 else (split cs).1 :: (split cs).2 := by
  simp only [words, List.isEmpty_iff]

theorem split_cons_of_blank (h : isBlank c = true) (cs : List Char) :
    split (c :: cs) = ([], words cs) := by
  simp only [split, words, h, if_true]

theorem split_cons_of_not (h : isBlank c = false) (cs : List Char) :
    split (c :: cs) = (c :: (split cs).1, (split cs).2) := by
  simp only [split, h, Bool.false_eq_true, if_false]

theorem split_of_endsWord (h : EndsWord rest) : split rest = ([], words rest) := by
  cases rest with
  | nil => rfl
  | cons c rest => rw [words_eq (c :: rest), split_cons_of_blank (h c rfl), if_pos rfl]

/-- A blank in front does not matter. -/
theorem words_cons_of_blank (h : isBlank c = true) (rest : List Char) :
    words (c :: rest) = words rest := by
  rw [words_eq (c :: rest), split_cons_of_blank h, if_pos rfl]

/-- Blanks in front do not matter. -/
theorem words_blank_append (h : allBlank gap = true) (rest : List Char) :
    words (gap ++ rest) = words rest := by
  induction gap with
  | nil => rfl
  | cons c gap ih =>
    obtain ⟨hc, hgap⟩ := Bool.and_eq_true_iff.1 (List.all_cons.symm.trans h)
    rw [List.cons_append, words_cons_of_blank hc, ih hgap]

theorem split_append (hw : ∀ c ∈ w, isBlank c = false) (hend : EndsWord rest) :
    split (w ++ rest) = (w, words rest) := by
  induction w with
  | nil => exact split_of_endsWord hend
  | cons c w ih =>
    obtain ⟨hc, hw⟩ := List.forall_mem_cons.1 hw
    rw [List.cons_append, split_cons_of_not hc, ih hw]

/-- A word that ends is the first one. -/
theorem words_append (hw : IsWord w) (hend : EndsWord rest) :
    words (w ++ rest) = w :: words rest := by
  rw [words_eq, split_append hw.isBlank_eq_false hend, if_neg hw.ne_nil]

/-- A word goes up to the next blank. -/
theorem words_append_cons (hw : IsWord w) (hc : isBlank c = true) (rest : List Char) :
    words (w ++ c :: rest) = w :: words rest := by
  rw [words_append hw (endsWord_cons hc rest), words_cons_of_blank hc]

/-- A word is its only word. -/
theorem words_of_isWord (hw : IsWord w) : words w = [w] := by
  have h := words_append hw endsWord_nil
  rwa [List.append_nil] at h

/-! ## Texts are made of their words -/

theorem allBlank_cons (hc : isBlank c = true) (hgap : allBlank gap = true) :
    allBlank (c :: gap) = true := by
  rw [allBlank, List.all_cons, hc]
  exact hgap

theorem Spaced.blank_cons (h : Spaced rest ws) (hc : isBlank c = true) : Spaced (c :: rest) ws := by
  cases h with
  | nil hgap => exact .nil (allBlank_cons hc hgap)
  | cons hgap hw hend hrest => exact .cons (allBlank_cons hc hgap) hw hend hrest

/-- A stretch without blanks is a word unless it is empty. -/
theorem spaced_of_split {cs : List Char} (hcs : cs = (split cs).1 ++ rest)
    (hw : ∀ c ∈ (split cs).1, isBlank c = false) (hend : EndsWord rest)
    (hrest : Spaced rest (split cs).2) : Spaced cs (words cs) := by
  rw [words_eq]
  by_cases hempty : (split cs).1 = []
  · rw [if_pos hempty]
    rw [hempty, List.nil_append] at hcs
    exact hcs ▸ hrest
  · rw [if_neg hempty]
    have hspaced : Spaced ([] ++ ((split cs).1 ++ rest)) ((split cs).1 :: (split cs).2) :=
      .cons rfl ⟨hempty, hw⟩ hend hrest
    rwa [List.nil_append, ← hcs] at hspaced

/-- A text goes on with a stretch without blanks, perhaps an empty one, and is made of words after
that. The induction is on its characters. -/
theorem exists_split (cs : List Char) :
    ∃ rest, cs = (split cs).1 ++ rest ∧ (∀ c ∈ (split cs).1, isBlank c = false) ∧ EndsWord rest ∧
      Spaced rest (split cs).2 := by
  induction cs with
  | nil => exact ⟨[], rfl, nofun, endsWord_nil, .nil rfl⟩
  | cons c cs ih =>
    obtain ⟨rest, hcs, hw, hend, hrest⟩ := ih
    cases hc : isBlank c with
    | false =>
      rw [split_cons_of_not hc]
      exact ⟨rest, congrArg (c :: ·) hcs, List.forall_mem_cons.2 ⟨hc, hw⟩, hend, hrest⟩
    | true =>
      rw [split_cons_of_blank hc]
      refine ⟨c :: cs, rfl, nofun, endsWord_cons hc cs, Spaced.blank_cons ?_ hc⟩
      exact spaced_of_split hcs hw hend hrest

/-- A text is made of its words. -/
theorem spaced_words (cs : List Char) : Spaced cs (words cs) := by
  obtain ⟨rest, hcs, hw, hend, hrest⟩ := exists_split cs
  exact spaced_of_split hcs hw hend hrest

/-- It is made of no other words. -/
theorem Spaced.words_eq {cs : List Char} (h : Spaced cs ws) : words cs = ws := by
  induction h with
  | nil hgap => exact words_eq_nil.2 hgap
  | cons hgap hw hend _ ih => rw [words_blank_append hgap, words_append hw hend, ih]

/-- The words of a text are those that it is made of. -/
theorem spaced_iff {cs : List Char} : Spaced cs ws ↔ words cs = ws := by
  constructor
  · exact Spaced.words_eq
  · rintro rfl
    exact spaced_words cs

end SpriteVM.Blank
