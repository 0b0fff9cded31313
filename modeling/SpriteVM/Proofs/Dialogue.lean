import SpriteVM.Console.Session
import SpriteVM.Proofs.Lines

/-!
# Dialogues

What a dialogue makes of its lines.

* A line is a command, a line of blanks or a mistake (`line_kind`), and each kind has its own
  answer. Only a command becomes the latest command.
* A dialogue only gets to hear the lines up to the first one that asks to quit (`run_heard`).
* `Session.spelledOut` replaces a line of blanks by the text of the command that it repeats, and the
  dialogue stays the same (`run_spelledOut`).
-/

namespace SpriteVM

/-! ## Commands and mistakes -/

namespace Command

variable {args : List Nat} {e : CommandError}

/-- Arguments fail with the first that is no number. -/
theorem numbers_error {words : List (List Char)} (h : numbers words = .error e) :
    ∃ word, e = .notANumber word := by
  induction words with
  | nil => cases h
  | cons word words ih =>
    rw [numbers] at h
    split at h
    · exact ⟨_, (Except.error.inj h).symm⟩
    · cases hrest : numbers words with
      | ok ns =>
        rw [hrest] at h
        cases h
      | error e' =>
        rw [hrest] at h
        obtain rfl := Except.error.inj h
        exact ih hrest

theorem bare_error {c : Command} (h : bare c args = .error e) : e = .noArguments := by
  rw [bare.eq_def] at h
  split at h
  · cases h
  · exact (Except.error.inj h).symm

theorem ranged_error {c : Nat → Nat → Command} (h : ranged c args = .error e) : e = .wrongCount := by
  rw [ranged.eq_def] at h
  split at h
  · cases h
  · cases h
  · exact (Except.error.inj h).symm

theorem counted_error {c : Nat → Command} (h : counted c args = .error e) : e = .wrongCount := by
  rw [counted.eq_def] at h
  split at h
  · cases h
  · cases h
  · exact (Except.error.inj h).symm

theorem keyed_error {c : Nat → Command} (h : keyed c args = .error e) :
    e = .wrongCount ∨ ∃ key, e = .noSuchKey key := by
  rw [keyed.eq_def] at h
  split at h
  · next key =>
    split at h
    · cases h
    · exact .inr ⟨key, (Except.error.inj h).symm⟩
  · exact .inl (Except.error.inj h).symm

/-- What can be wrong with numbers that are meant for a verb. -/
theorem ofVerb_error {v : Verb} (h : ofVerb args v = .error e) :
    e = .wrongCount ∨ e = .noArguments ∨ ∃ key, e = .noSuchKey key := by
  cases v with
  | disassemble | dump => exact .inl (ranged_error h)
  | step | tick => exact .inl (counted_error h)
  | registers | video | help | quit => exact .inr (.inl (bare_error h))
  | press | release => exact (keyed_error h).imp_right .inr

/-- A line lacks a command exactly when it consists of blanks. -/
theorem parse_eq_empty {line : String} :
    parse line = .error .empty ↔ Blank.allBlank line.toList = true := by
  rw [← Blank.words_eq_nil, parse]
  cases Blank.words line.toList with
  | nil => exact iff_of_true rfl rfl
  | cons name words =>
    refine iff_of_false ?_ (List.cons_ne_nil _ _)
    intro h
    rw [ofWords] at h
    split at h
    · next hnumbers =>
      obtain ⟨word, rfl⟩ := numbers_error hnumbers
      cases h
    · split at h
      · cases h
      · rcases ofVerb_error h with h | h | ⟨key, h⟩ <;> cases h

end Command

namespace Session

/-- A line of blanks. -/
def blank (line : String) : Bool :=
  Blank.allBlank line.toList

/-- Whether a line is a command. -/
def understood (line : String) : Bool :=
  (Command.parse line).isOk

theorem blank_eq_false {line : String} (h : Command.parse line ≠ .error .empty) :
    blank line = false := by
  rw [← Bool.not_eq_true]
  intro hblank
  exact h (Command.parse_eq_empty.2 hblank)

/-- The kinds of lines. -/
inductive Kind (line : String) : Prop where
  /-- the line is a command -/
  | command {c : Command} (hparse : Command.parse line = .ok c) (hblank : blank line = false)
  /-- the line consists of blanks -/
  | blank (hparse : Command.parse line = .error .empty) (hblank : blank line = true)
  /-- the line is a mistake -/
  | mistake {e : CommandError} (hparse : Command.parse line = .error e) (he : e ≠ .empty)
      (hblank : blank line = false)

/-- Every line is of one of these kinds. -/
theorem line_kind (line : String) : Kind line := by
  cases hparse : Command.parse line with
  | ok c => exact .command hparse (blank_eq_false (by rw [hparse]; exact nofun))
  | error e =>
    by_cases he : e = .empty
    · subst he
      exact .blank hparse (Command.parse_eq_empty.1 hparse)
    · refine .mistake hparse he (blank_eq_false ?_)
      rw [hparse]
      exact fun h => he (Except.error.inj h)

/-- A line of blanks is no command. -/
theorem blank_of_understood {line : String} (h : understood line = true) : blank line = false := by
  rw [understood] at h
  cases line_kind line with
  | command _ hblank => exact hblank
  | blank hparse | mistake hparse =>
    rw [hparse] at h
    cases h

/-! ## Answers -/

variable {s : Session} {line : String} {c : Command} {e : CommandError}

/-- The answer to a command. -/
theorem answer_of_parse (h : Command.parse line = .ok c) : s.answer line = s.carryOut c := by
  have hblank : blank line = false := blank_eq_false (by rw [h]; exact nofun)
  rw [blank] at hblank
  rw [answer, request, hblank, h]
  rfl

/-- The answer to a line of blanks when there is a latest command. -/
theorem answer_of_repeat (h : blank line = true) (hs : s.latest? = some c) :
    s.answer line = s.carryOut c := by
  rw [blank] at h
  rw [answer, request, h, hs]
  rfl

/-- The answer to a line of blanks when there is no command yet. -/
theorem answer_of_nothing (h : blank line = true) (hs : s.latest? = none) :
    s.answer line = { session := s } := by
  rw [blank] at h
  rw [answer, request, h, hs]
  rfl

/-- The answer to a mistake. -/
theorem answer_of_mistake (h : Command.parse line = .error e) (he : e ≠ .empty) :
    s.answer line = { session := s, text := Layout.line e.message } := by
  have hblank : blank line = false :=
    blank_eq_false (by rw [h]; exact fun hempty => he (Except.error.inj hempty))
  rw [blank] at hblank
  rw [answer, request, hblank, h]
  rfl

/-- Only a command becomes the latest command, whatever comes of it. -/
theorem latest?_answer (s : Session) (line : String) :
    (s.answer line).session.latest? = (Command.parse line).toOption.or s.latest? := by
  cases line_kind line with
  | command hparse =>
    rw [answer_of_parse hparse, hparse]
    rfl
  | blank hparse hblank =>
    rw [hparse]
    cases hs : s.latest? with
    | none =>
      rw [answer_of_nothing hblank hs]
      exact hs
    | some c =>
      rw [answer_of_repeat hblank hs]
      rfl
  | mistake hparse he =>
    rw [answer_of_mistake hparse he, hparse]
    rfl

/-- No line is answered with the complaint that it is empty. -/
theorem request_ne_empty (s : Session) (line : String) : s.request line ≠ .mistake .empty := by
  intro h
  rw [request] at h
  split at h
  · split at h <;> cases h
  · next hblank =>
    split at h
    · cases h
    · next hparse =>
      obtain rfl := Request.mistake.inj h
      exact hblank (Command.parse_eq_empty.1 hparse)

/-! ## Lines that are heard -/

/-- Whether a line asks to quit. -/
def asksToQuit (line : String) : Bool :=
  (Command.parse line).toOption == some .quit

/-- The lines that a dialogue gets to hear: the first one that asks to quit is the last. -/
def heard : List String → List String
  | [] => []
  | line :: lines => if asksToQuit line then [line] else line :: heard lines

theorem heard_sublist (lines : List String) : (heard lines).Sublist lines := by
  induction lines with
  | nil => exact .slnil
  | cons line lines ih =>
    rw [heard]
    split
    · exact .cons_cons _ (List.nil_sublist _)
    · exact .cons_cons _ ih

theorem asksToQuit_iff {line : String} :
    asksToQuit line = true ↔ Command.parse line = .ok .quit := by
  rw [asksToQuit]
  cases h : Command.parse line with
  | ok c => simp [Except.toOption]
  | error e => simp [Except.toOption]

/-- A line that asks to quit ends the dialogue. -/
theorem quits_of_asksToQuit (s : Session) (h : asksToQuit line = true) :
    (s.answer line).quits = true := by
  rw [answer_of_parse (asksToQuit_iff.1 h)]
  rfl

/-- Nothing else ends it, unless the latest command was to quit. -/
theorem asksToQuit_of_quits (hs : s.latest? ≠ some .quit) (h : (s.answer line).quits = true) :
    asksToQuit line = true := by
  cases line_kind line with
  | @command c hparse =>
    rw [answer_of_parse hparse] at h
    obtain rfl : c = .quit := eq_of_beq h
    exact asksToQuit_iff.2 hparse
  | blank _ hblank =>
    cases hlatest : s.latest? with
    | none =>
      rw [answer_of_nothing hblank hlatest] at h
      cases h
    | some c =>
      rw [answer_of_repeat hblank hlatest] at h
      obtain rfl : c = .quit := eq_of_beq h
      exact absurd hlatest hs
  | mistake hparse he =>
    rw [answer_of_mistake hparse he] at h
    cases h

/-- What comes after a line that asks to quit does not matter. -/
theorem run_heard (s : Session) (lines : List String) :
    s.run ((heard lines).map some) = s.run (lines.map some) := by
  induction lines generalizing s with
  | nil => rfl
  | cons line lines ih =>
    rw [heard]
    split
    · next hquit =>
      have hquits := quits_of_asksToQuit s hquit
      rw [List.map_cons, List.map_cons, run, run, if_pos hquits, if_pos hquits]
    · rw [List.map_cons, List.map_cons, run, run, ih]

/-! ## Lines spelled out -/

/-- A line with the text in its place if it consists of blanks. -/
def spell (latest? : Option String) (line : String) : String :=
  if blank line then latest?.getD line else line

/-- The lines with the text of the latest command in place of every line of blanks behind one. -/
def spelledOut (latest? : Option String) : List String → List String
  | [] => []
  | line :: lines =>
    spell latest? line :: spelledOut (if understood line then some line else latest?) lines

variable {text? : Option String}

theorem spell_cases (text? : Option String) (line : String) :
    spell text? line = line ∨ spell text? line ∈ text? := by
  rw [spell]
  split
  · cases text? with
    | none => exact .inl rfl
    | some text => exact .inr rfl
  · exact .inl rfl

/-- Blanks are left where there is no text to put in their place. -/
theorem eq_none_of_blank_spell (h : ∀ text ∈ text?, blank text = false)
    (hblank : blank (spell text? line) = true) : text? = none := by
  rw [spell] at hblank
  split at hblank
  · cases text? with
    | none => rfl
    | some text => cases hblank.symm.trans (h text rfl)
  · next hline => exact absurd hblank hline

/-- The text is that of the latest command. -/
def Remembers (s : Session) : Option String → Prop
  | none => s.latest? = none
  | some text => ∃ c, Command.parse text = .ok c ∧ s.latest? = some c

/-- A line of blanks is answered like the text of the command that it repeats. -/
theorem answer_spell (h : s.Remembers text?) (line : String) :
    s.answer (spell text? line) = s.answer line := by
  rw [spell]
  split
  · next hblank =>
    cases text? with
    | none => rfl
    | some text =>
      obtain ⟨c, hc, hs⟩ := h
      rw [Option.getD_some, answer_of_parse hc, answer_of_repeat hblank hs]
  · rfl

/-- **Step lemma.** The text of the latest command is followed up. -/
theorem remembers_answer (h : s.Remembers text?) (line : String) :
    (s.answer line).session.Remembers (if understood line then some line else text?) := by
  have hlatest := latest?_answer s line
  rw [understood]
  cases hparse : Command.parse line with
  | ok c =>
    rw [hparse] at hlatest
    exact ⟨c, hparse, hlatest⟩
  | error e =>
    rw [hparse] at hlatest
    cases text? with
    | none => exact hlatest.trans h
    | some text =>
      obtain ⟨c, hc, hs⟩ := h
      exact ⟨c, hc, hlatest.trans hs⟩

/-- **Run lemma.** Spelling out what is repeated changes nothing. -/
theorem run_spelledOut (h : s.Remembers text?) (lines : List String) :
    s.run ((spelledOut text? lines).map some) = s.run (lines.map some) := by
  induction lines generalizing s text? with
  | nil => rfl
  | cons line lines ih =>
    rw [spelledOut, List.map_cons, List.map_cons, run, run, answer_spell h,
      ih (remembers_answer h line)]

/-- Lines of blanks are left in front of the first command only. The induction is on the lines that
are to come, with the text of the latest command before them. -/
theorem blank_spelledOut (h : ∀ text ∈ text?, blank text = false)
    {lines before after : List String} (hlines : spelledOut text? lines = before ++ line :: after)
    (hblank : blank line = true) : text? = none ∧ ∀ l ∈ before, understood l = false := by
  induction lines generalizing text? before with
  | nil => simp [spelledOut] at hlines
  | cons line' lines ih =>
    rw [spelledOut] at hlines
    cases before with
    | nil =>
      obtain ⟨rfl, -⟩ := List.cons.inj hlines
      exact ⟨eq_none_of_blank_spell h hblank, fun _ hl => absurd hl List.not_mem_nil⟩
    | cons b before =>
      obtain ⟨rfl, hrest⟩ := List.cons.inj hlines
      have hnext : ∀ text ∈ if understood line' then some line' else text?, blank text = false := by
        split
        · next hline =>
          rintro text ⟨⟩
          exact blank_of_understood hline
        · exact h
      obtain ⟨hnone, hbefore⟩ := ih hnext hrest
      have hline : understood line' = false := by
        rw [← Bool.not_eq_true]
        intro hline
        rw [if_pos hline] at hnone
        cases hnone
      rw [hline, if_neg Bool.false_ne_true] at hnone
      refine ⟨hnone, List.forall_mem_cons.2 ⟨?_, hbefore⟩⟩
      rw [hnone, spell, Option.getD_none, ite_self]
      exact hline

theorem length_spelledOut (text? : Option String) (lines : List String) :
    (spelledOut text? lines).length = lines.length := by
  induction lines generalizing text? with
  | nil => rfl
  | cons line lines ih => rw [spelledOut, List.length_cons, ih, List.length_cons]

/-- Lines that are spelled out are lines of a text. -/
theorem cut_spelledOut (h : ∀ text ∈ text?, Lines.Ended text) {lines : List String}
    (hlines : Lines.Cut lines) : Lines.Cut (spelledOut text? lines) := by
  induction hlines generalizing text? with
  | nil => exact .nil
  | @last l hne hl =>
    rw [spelledOut, spelledOut]
    obtain hline | htext := spell_cases text? l
    · rw [hline]
      exact .last hne hl
    · exact .cons (h _ htext) .nil
  | @cons l ls hl hls ih =>
    rw [spelledOut]
    refine .cons ?_ (ih ?_)
    · obtain hline | htext := spell_cases text? l
      · rw [hline]
        exact hl
      · exact h _ htext
    · split
      · rintro text ⟨⟩
        exact hl
      · exact h

end Session

end SpriteVM
