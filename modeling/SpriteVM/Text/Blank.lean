/-!
# Blanks and words

The characters with the Unicode property `White_Space`, and the words of a text between them.
-/

namespace SpriteVM.Blank

/-- The ranges of the code points with the property `White_Space`, both ends included. -/
def ranges : List (Nat × Nat) :=
  [(0x09, 0x0D), (0x20, 0x20), (0x85, 0x85), (0xA0, 0xA0), (0x1680, 0x1680), (0x2000, 0x200A),
   (0x2028, 0x2029), (0x202F, 0x202F), (0x205F, 0x205F), (0x3000, 0x3000)]

/-- Whether a character has the property `White_Space`. -/
def isBlank (c : Char) : Bool :=
  ranges.any fun r => r.1 ≤ c.toNat && c.toNat ≤ r.2

/-- A text of blanks only, the empty one included. -/
def allBlank (cs : List Char) : Bool :=
  cs.all isBlank

/-- The word that `cs` goes on with, and the words after it. The word is empty where a blank or
the end comes first. -/
def split : List Char → List Char × List (List Char)
  | [] => ([], [])
  | c :: cs =>
    let (w, ws) := split cs
    if isBlank c then ([], if w.isEmpty then ws else w :: ws) else (c :: w, ws)

/-- The words of a text: its longest stretches without a blank, in order. -/
def words (cs : List Char) : List (List Char) :=
  let (w, ws) := split cs
  if w.isEmpty then ws else w :: ws

/-- A text has no words when it consists of blanks. -/
theorem words_eq_nil {cs : List Char} : words cs = [] ↔ allBlank cs = true := by
  induction cs with
  | nil => exact iff_of_true rfl rfl
  | cons c cs ih =>
    rw [words] at ih
    rw [words, split, allBlank, List.all_cons]
    cases isBlank c with
    | true => exact ih
    | false => exact iff_of_false nofun Bool.false_ne_true

/-- A text without the blanks at its end. -/
def trimEnd (cs : List Char) : List Char :=
  (cs.reverse.dropWhile isBlank).reverse

end SpriteVM.Blank
