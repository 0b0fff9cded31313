import SpriteVM.Text.Layout
import SpriteVM.Text.Lines

/-!
# Lines of a text

A stream of bytes that is UTF-8 as a whole is cut into lines that are UTF-8 each, since no character
other than the line feed has a line feed byte in its encoding. `Lines.Pieces` describes the lines of
a stream and `Lines.Cut` those of a text: all but the last one end with a line feed, and none has one
before its end.

* Every stream of bytes is cut into its lines in one way (`pieces_split`, `Pieces.split_flatten`).
* Every text is cut into such lines (`exists_cut`), and its bytes are cut in the same places
  (`ofBytes_join`).
* When lines are taken away, lines of a text are left (`Cut.sublist`).
-/

namespace SpriteVM.Lines

/-! ## Bytes of a text -/

/-- The bytes of a text. -/
def bytes (text : String) : List UInt8 :=
  text.toList.flatMap String.utf8EncodeChar

theorem bytes_append (s t : String) : bytes (s ++ t) = bytes s ++ bytes t := by
  rw [bytes, String.toList_append, List.flatMap_append, bytes, bytes]

theorem toByteArray_bytes (text : String) : (bytes text).toByteArray = text.toByteArray := by
  have h := String.toByteArray_ofList (l := text.toList)
  rw [String.ofList_toList] at h
  exact h.symm

theorem bytes_line (l : String) : bytes (Layout.line l) = bytes l ++ [lineFeed] :=
  bytes_append l "\n"

/-- A line is the text whose bytes it has. -/
theorem text?_eq_some {line : List UInt8} {text : String} :
    text? line = some text ↔ line = bytes text := by
  have hbytes : line = bytes text ↔ line.toByteArray = text.toByteArray := by
    rw [← toByteArray_bytes, List.toByteArray_inj]
  rw [hbytes, text?, String.fromUTF8?]
  split
  · rw [Option.some.injEq, ← String.toByteArray_inj]
    rfl
  · next h =>
    refine iff_of_false nofun ?_
    intro heq
    exact h (heq ▸ text.isValidUTF8)

theorem text?_bytes (text : String) : text? (bytes text) = some text :=
  text?_eq_some.2 rfl

theorem bytes_inj {s t : String} (h : bytes s = bytes t) : s = t :=
  Option.some.inj ((text?_bytes s).symm.trans (h ▸ text?_bytes t))

/-- Only the line feed has a line feed byte in its encoding. -/
theorem eq_of_lineFeed_mem {c : Char} (h : lineFeed ∈ String.utf8EncodeChar c) : c = '\n' := by
  have hbyte : ∀ n : Nat, lineFeed = UInt8.ofNat n → n % 256 = 10 := by
    intro n hn
    simpa [lineFeed] using (congrArg UInt8.toNat hn).symm
  -- the bytes of the longer encodings have their highest bit set
  have hhigh : ∀ n : Nat, 128 ≤ n → n < 256 → lineFeed ≠ UInt8.ofNat n := by
    intro n hle hlt hn
    have := hbyte n hn
    omega
  unfold String.utf8EncodeChar at h
  dsimp only at h
  split at h
  · have hten := hbyte _ (List.mem_singleton.1 h)
    have hval : c.val.toNat = 10 := by omega
    exact Char.ext (UInt32.toNat_inj.1 hval)
  · exfalso
    split at h
    · simp only [List.mem_cons, List.not_mem_nil, or_false] at h
      rcases h with h | h <;> exact hhigh _ (by omega) (by omega) h
    · split at h
      · simp only [List.mem_cons, List.not_mem_nil, or_false] at h
        rcases h with h | h | h <;> exact hhigh _ (by omega) (by omega) h
      · simp only [List.mem_cons, List.not_mem_nil, or_false] at h
        rcases h with h | h | h | h <;> exact hhigh _ (by omega) (by omega) h

theorem lineFeed_notMem {text : String} (h : '\n' ∉ text.toList) : lineFeed ∉ bytes text := by
  intro hmem
  obtain ⟨c, hc, hbyte⟩ := List.mem_flatMap.1 hmem
  exact h (eq_of_lineFeed_mem hbyte ▸ hc)

/-! ## Cutting -/

/-- A stream goes on after a line feed. -/
theorem split_line {line : List UInt8} (h : lineFeed ∉ line) (rest : List UInt8) :
    split (line ++ lineFeed :: rest) = (line ++ [lineFeed]) :: split rest := by
  induction line with
  | nil => rw [List.nil_append, split, if_pos rfl, List.nil_append]
  | cons b line ih =>
    obtain ⟨hb, hline⟩ : lineFeed ≠ b ∧ lineFeed ∉ line := by
      rwa [List.mem_cons, not_or] at h
    rw [List.cons_append, split, if_neg (Ne.symm hb), ih hline, List.cons_append]

/-- A stream without a line feed is one line. -/
theorem split_last {line : List UInt8} (hne : line ≠ []) (h : lineFeed ∉ line) :
    split line = [line] := by
  induction line with
  | nil => exact absurd rfl hne
  | cons b line ih =>
    obtain ⟨hb, hline⟩ : lineFeed ≠ b ∧ lineFeed ∉ line := by
      rwa [List.mem_cons, not_or] at h
    rw [split, if_neg (Ne.symm hb)]
    cases line with
    | nil => rfl
    | cons b' line => rw [ih (List.cons_ne_nil _ _) hline]

/-- The lines of a stream of bytes. -/
inductive Pieces : List (List UInt8) → Prop where
  /-- there are no more lines -/
  | nil : Pieces []
  /-- the last line does not end with a line feed -/
  | last {l : List UInt8} (hne : l ≠ []) (hl : lineFeed ∉ l) : Pieces [l]
  /-- a line ends with a line feed -/
  | cons {l : List UInt8} {ls : List (List UInt8)} (hl : lineFeed ∉ l) (h : Pieces ls) :
      Pieces ((l ++ [lineFeed]) :: ls)

/-- Every stream is cut into its lines. The induction is on its bytes. -/
theorem pieces_split (bs : List UInt8) : Pieces (split bs) := by
  induction bs with
  | nil => exact .nil
  | cons b bs ih =>
    rw [split]
    split
    · next hb =>
      subst hb
      exact .cons List.not_mem_nil ih
    · next hb =>
      have hb' : lineFeed ∉ [b] := by simpa using Ne.symm hb
      -- any other byte becomes part of the first line
      split
      · exact .last (List.cons_ne_nil _ _) hb'
      · next l ls hsplit =>
        rw [hsplit] at ih
        cases ih with
        | last _ hl => exact .last (List.cons_ne_nil _ _) (by simp [hl, Ne.symm hb])
        | @cons l _ hl h => exact .cons (l := b :: l) (by simp [hl, Ne.symm hb]) h

/-- A stream has no other lines. -/
theorem Pieces.split_flatten {ls : List (List UInt8)} (h : Pieces ls) : split ls.flatten = ls := by
  induction h with
  | nil => rfl
  | last hne hl => rw [List.flatten_singleton, split_last hne hl]
  | cons hl h ih =>
    rw [List.flatten_cons, List.append_assoc, List.singleton_append, split_line hl, ih]

/-- A line that ends with a line feed. -/
def Ended (line : String) : Prop :=
  ∃ l, '\n' ∉ l.toList ∧ line = Layout.line l

/-- The lines of a text. -/
inductive Cut : List String → Prop where
  /-- there are no more lines -/
  | nil : Cut []
  /-- the last line does not end with a line feed -/
  | last {l : String} (hne : l ≠ "") (hl : '\n' ∉ l.toList) : Cut [l]
  /-- a line ends with a line feed -/
  | cons {l : String} {ls : List String} (hl : Ended l) (h : Cut ls) : Cut (l :: ls)

/-- Every text has its lines. The induction is on its characters. -/
theorem exists_cut (text : String) : ∃ ls, Cut ls ∧ String.join ls = text := by
  rw [← String.ofList_toList (s := text)]
  induction text.toList with
  | nil => exact ⟨[], .nil, rfl⟩
  | cons c cs ih =>
    obtain ⟨ls, hls, hjoin⟩ := ih
    have htext : String.ofList (c :: cs) = String.ofList [c] ++ String.join ls := by
      rw [hjoin, ← String.ofList_append]
      rfl
    by_cases hc : c = '\n'
    · refine ⟨Layout.line "" :: ls, .cons ⟨"", by decide, rfl⟩ hls, ?_⟩
      rw [htext, String.join_cons, hc]
      rfl
    -- any other character becomes part of the first line
    · cases hls with
      | nil =>
        refine ⟨[String.ofList [c]], .last (by simp) ?_, ?_⟩
        · simpa using Ne.symm hc
        · rw [htext, String.join_cons]
      | @last l hne hl =>
        refine ⟨[String.ofList [c] ++ l], .last ?_ ?_, ?_⟩
        · simp
        · simpa [hl] using Ne.symm hc
        · rw [htext, String.join_cons, String.join_cons, String.append_assoc]
      | @cons _ ls hl hls =>
        obtain ⟨l, hl, rfl⟩ := hl
        refine ⟨Layout.line (String.ofList [c] ++ l) :: ls, .cons ⟨_, ?_, rfl⟩ hls, ?_⟩
        · simpa [hl] using Ne.symm hc
        · rw [htext, String.join_cons, String.join_cons, Layout.line, Layout.line]
          simp only [String.append_assoc]

/-- The bytes of a text are cut where its lines end. -/
theorem ofBytes_join {ls : List String} (h : Cut ls) :
    ofBytes (bytes (String.join ls)) = ls.map some := by
  induction h with
  | nil => rfl
  | @last l hne hl =>
    have hbytes : bytes l ≠ bytes "" := fun h => hne (bytes_inj h)
    rw [String.join_cons, String.join_nil, String.append_empty, ofBytes,
      split_last hbytes (lineFeed_notMem hl), List.map_singleton, text?_bytes]
    rfl
  | @cons _ ls hl h ih =>
    obtain ⟨l, hl, rfl⟩ := hl
    rw [ofBytes] at ih
    rw [String.join_cons, bytes_append, bytes_line, List.append_assoc, ofBytes, List.singleton_append,
      split_line (lineFeed_notMem hl), List.map_cons, ih, ← bytes_line, text?_bytes, List.map_cons]

/-- When lines are taken away, lines of a text are left. -/
theorem Cut.sublist {ls ls' : List String} (h : Cut ls) (hsub : ls'.Sublist ls) : Cut ls' := by
  induction h generalizing ls' with
  | nil => exact List.sublist_nil.1 hsub ▸ .nil
  | last hne hl =>
    cases hsub with
    | cons _ hsub => exact List.sublist_nil.1 hsub ▸ .nil
    | cons_cons _ hsub => exact List.sublist_nil.1 hsub ▸ .last hne hl
  | cons hl h ih =>
    cases hsub with
    | cons _ hsub => exact ih hsub
    | cons_cons _ hsub => exact .cons hl (ih hsub)

end SpriteVM.Lines
