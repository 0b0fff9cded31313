import SpriteVM.Proofs.Dialogue

/-!
# Condensed dialogues

What a dialogue comes to depends on the commands that it is asked to carry out, and on nothing else
in its input.

* Lines that are no commands when they are spelled out are answered without a change
  (`answer_of_idle`). So they can be taken away: their answers go, and all else stays
  (`run_filter`).
* `converse_commands` states it for the bytes of a whole input.
-/

namespace SpriteVM

/-! ## Lines that are no commands -/

namespace Session

variable {s : Session} {line : String} {e : CommandError} {text? : Option String}

/-- What is printed for a line that is no command. -/
inductive Idle : String → String → Prop where
  /-- nothing, when there is no command to repeat -/
  | blank {line : String} (h : blank line = true) : Idle line ""
  /-- the mistake -/
  | mistake {line : String} {e : CommandError} (h : Command.parse line = .error e)
      (he : e ≠ .empty) : Idle line (Layout.line e.message)

/-- What is printed for a mistake is its wording. -/
theorem Idle.eq_message {text : String} (h : Idle line text)
    (hparse : Command.parse line = .error e) (he : e ≠ .empty) : text = Layout.line e.message := by
  cases h with
  | blank hblank =>
    have hempty := hparse.symm.trans (Command.parse_eq_empty.2 hblank)
    exact absurd (Except.error.inj hempty) he
  | mistake h _ => rw [Except.error.inj (hparse.symm.trans h)]

/-- A line that is no command when it is spelled out was none before, and it is answered without a
change. -/
theorem answer_of_idle (h : s.Remembers text?)
    (hidle : understood (spell text? line) = false) :
    spell text? line = line ∧ ∃ text, s.answer line = { session := s, text } ∧ Idle line text := by
  cases line_kind line with
  | command hparse hblank =>
    rw [spell, hblank, if_neg Bool.false_ne_true, understood, hparse] at hidle
    cases hidle
  | blank hparse hblank =>
    cases text? with
    | none =>
      refine ⟨?_, _, answer_of_nothing hblank h, .blank hblank⟩
      rw [spell, if_pos hblank, Option.getD_none]
    -- the text of a command would have made it a command
    | some text =>
      obtain ⟨c, hc, -⟩ := h
      rw [spell, if_pos hblank, Option.getD_some, understood, hc] at hidle
      cases hidle
  | mistake hparse he hblank =>
    refine ⟨?_, _, answer_of_mistake hparse he, .mistake hparse he⟩
    rw [spell, hblank, if_neg Bool.false_ne_true]

end Session

/-! ## Transcripts -/

/-- What is printed after each prompt. -/
def Transcript.outputs (t : Transcript) : List String :=
  t.answers ++ [t.ending.text]

/-- All that is printed, prompt by prompt. -/
theorem Transcript.text_eq (t : Transcript) :
    t.text = String.join (t.outputs.map (Session.prompt ++ ·)) := by
  rw [text, outputs, List.map_append]
  simp [String.join_append, String.append_assoc]

/-- The second transcript is the first one, over these lines, without those that are no commands. -/
structure Transcript.Condensed (lines : List String) (t t' : Transcript) : Prop where
  /-- the machine is the same at the end -/
  machine : t'.machine = t.machine
  /-- the dialogue ends in the same way -/
  ending : t'.ending = t.ending
  /-- the same is logged -/
  log : t'.log = t.log
  /-- after each line that is left the same is printed -/
  outputs : (lines.filter Session.understood).zip t'.outputs =
    (lines.zip t.outputs).filter fun p => Session.understood p.1
  /-- after each of the other lines its mistake was printed, or nothing if it was blank -/
  idle : ∀ p ∈ lines.zip t.outputs, Session.understood p.1 = false → Session.Idle p.1 p.2

/-- The transcript with a line in front that is answered with a text. -/
def Transcript.after (t : Transcript) (text : String) (log : List SessionEntry) : Transcript :=
  { t with answers := text :: t.answers, log := log ++ t.log }

@[simp] theorem Transcript.outputs_after (t : Transcript) (text : String)
    (log : List SessionEntry) : (t.after text log).outputs = text :: t.outputs := rfl

namespace Transcript.Condensed

variable {line text : String} {lines : List String} {t t' : Transcript}

/-- A last line that asks to quit stays. -/
theorem quit (h : Session.understood line = true) (lines : List String) (m : Machine)
    (log : List SessionEntry) :
    Condensed (line :: lines) { machine := m, ending := .quit, log }
      { machine := m, ending := .quit, log } where
  machine := rfl
  ending := rfl
  log := rfl
  outputs := by
    simp [Transcript.outputs, h]
  idle := by
    intro p hp hno
    obtain rfl : p = (line, Ending.quit.text) := by simpa [Transcript.outputs] using hp
    cases h.symm.trans hno

/-- A command stays with its answer. -/
theorem keep (ht : Condensed lines t t') (h : Session.understood line = true) (text : String)
    (log : List SessionEntry) : Condensed (line :: lines) (t.after text log) (t'.after text log) where
  machine := ht.machine
  ending := ht.ending
  log := congrArg (log ++ ·) ht.log
  outputs := by
    simp only [outputs_after, List.zip_cons_cons, List.filter_cons, h, if_true, ht.outputs]
  idle := by
    intro p hp hno
    rw [outputs_after, List.zip_cons_cons] at hp
    rcases List.mem_cons.1 hp with rfl | hp
    · cases h.symm.trans hno
    · exact ht.idle p hp hno

/-- A line that is no command goes with its answer. -/
theorem drop (ht : Condensed lines t t') (h : Session.understood line = false)
    (hidle : Session.Idle line text) : Condensed (line :: lines) (t.after text []) t' where
  machine := ht.machine
  ending := ht.ending
  log := ht.log
  outputs := by
    simp only [outputs_after, List.zip_cons_cons, List.filter_cons, h, Bool.false_eq_true, if_false,
      ht.outputs]
  idle := by
    intro p hp hno
    rw [outputs_after, List.zip_cons_cons] at hp
    rcases List.mem_cons.1 hp with rfl | hp
    · exact hidle
    · exact ht.idle p hp hno

end Transcript.Condensed

/-! ## Lines taken away -/

namespace Session

variable {s : Session} {line : String} {text? : Option String}

/-- A line that ends the dialogue is the last one to be read. -/
theorem run_of_quits (h : (s.answer line).quits = true) (lines : List (Option String)) :
    s.run (some line :: lines) =
      { machine := (s.answer line).session.machine, ending := .quit, log := (s.answer line).log } := by
  rw [run, if_pos h]

/-- After any other line the dialogue goes on. -/
theorem run_of_goes (h : (s.answer line).quits = false) (lines : List (Option String)) :
    s.run (some line :: lines) =
      ((s.answer line).session.run lines).after (s.answer line).text (s.answer line).log := by
  rw [run, if_neg (by simp [h])]
  rfl

/-- **Run lemma.** The lines that are no commands can be taken away once the others are spelled
out. -/
theorem run_filter (h : s.Remembers text?) (lines : List String) :
    Transcript.Condensed (spelledOut text? lines) (s.run ((spelledOut text? lines).map some))
      (s.run (((spelledOut text? lines).filter understood).map some)) := by
  induction lines generalizing s text? with
  | nil => exact ⟨rfl, rfl, rfl, rfl, fun _ hp => absurd hp List.not_mem_nil⟩
  | cons line lines ih =>
    have hnext := ih (remembers_answer h line)
    have hanswer := answer_spell h line
    rw [spelledOut]
    cases hline : understood (spell text? line) with
    | true =>
      rw [List.filter_cons_of_pos hline, List.map_cons, List.map_cons]
      cases hquits : (s.answer (spell text? line)).quits with
      | true =>
        rw [run_of_quits hquits, run_of_quits hquits]
        exact .quit hline ..
      | false =>
        rw [run_of_goes hquits, run_of_goes hquits, hanswer]
        exact hnext.keep hline ..
    | false =>
      obtain ⟨hspell, text, htext, hidle⟩ := answer_of_idle h hline
      rw [hspell] at hline hanswer ⊢
      rw [List.filter_cons_of_neg (by simp [hline]), List.map_cons, run_of_goes (by rw [htext]),
        htext, if_neg (by simp [hline])]
      rw [htext, if_neg (by simp [hline])] at hnext
      exact hnext.drop hline hidle

/-- Every line that is heard is answered. -/
theorem length_heard_le (hs : s.latest? ≠ some .quit) (lines : List String) :
    (heard lines).length ≤ (s.run ((heard lines).map some)).outputs.length := by
  induction lines generalizing s with
  | nil => exact Nat.zero_le _
  | cons line lines ih =>
    rw [heard]
    split
    · rw [List.length_singleton, Transcript.outputs, List.length_append]
      exact Nat.le_add_left ..
    · next hquit =>
      have hgoes : (s.answer line).quits = false := by
        rw [← Bool.not_eq_true]
        exact fun hquits => hquit (asksToQuit_of_quits hs hquits)
      have hlatest : (s.answer line).session.latest? ≠ some .quit := by
        rw [latest?_answer]
        rw [asksToQuit] at hquit
        cases hparse : (Command.parse line).toOption with
        | none => exact hs
        | some c =>
          rw [hparse] at hquit
          intro hc
          exact hquit (beq_iff_eq.2 hc)
      rw [List.map_cons, run_of_goes hgoes, Transcript.outputs_after, List.length_cons,
        List.length_cons]
      exact Nat.succ_le_succ (ih hlatest)

/-! ## Whole dialogues -/

/-- The lines that are heard, with what they repeat spelled out. -/
def spelled (lines : List String) : List String :=
  spelledOut none (heard lines)

/-- The commands that are asked for, line by line. -/
def effective (lines : List String) : List String :=
  (spelled lines).filter understood

theorem converse_join (m : Machine) {lines : List String} (h : Lines.Cut lines) :
    m.converse (Lines.bytes (String.join lines)) = Session.run { machine := m } (lines.map some) := by
  rw [Machine.converse, Lines.ofBytes_join h]

/-- **Dialogues come down to their commands.** Take an input that is UTF-8, and of its lines those up
to the first one that asks to quit.

* When every line of blanks behind a command is replaced by the text of the latest one, the dialogue
  is the same in all respects.
* When, after that, the lines that are no commands are taken away, the machine ends up the same, and
  after every line that is left the same is printed. For a line that is gone, its mistake was printed
  or, if it was blank, nothing; a blank one had no command before it.

Every line that is a command becomes the latest command, whatever comes of carrying it out, and no
other line does. A complaint that a line is empty is never made. -/
theorem converse_commands (m : Machine) {input : List UInt8} {text : String}
    (h : Lines.text? input = some text) :
    (∃ lines : List String, Lines.ofBytes input = lines.map some ∧
      (Lines.ofBytes (Lines.bytes (String.join (spelled lines))) = (spelled lines).map some ∧
        m.converse (Lines.bytes (String.join (spelled lines))) = m.converse input) ∧
      Lines.ofBytes (Lines.bytes (String.join (effective lines))) = (effective lines).map some ∧
        (m.converse input).Condensed (spelled lines)
          (m.converse (Lines.bytes (String.join (effective lines)))) ∧
        (spelled lines).length ≤ (m.converse input).outputs.length ∧
        ∀ before line after, spelled lines = before ++ line :: after → blank line = true →
          ∀ l ∈ before, understood l = false) ∧
    ∀ (s : Session) (line : String),
      (∀ c, Command.parse line = .ok c →
        s.answer line = s.carryOut c ∧ (s.answer line).session.latest? = some c) ∧
      (∀ e, Command.parse line = .error e → (s.answer line).session.latest? = s.latest?) ∧
      s.request line ≠ .mistake .empty := by
  constructor
  · obtain ⟨lines, hcut, rfl⟩ := Lines.exists_cut text
    have hlines : Lines.ofBytes input = lines.map some := by
      rw [Lines.text?_eq_some.1 h, Lines.ofBytes_join hcut]
    -- at first there is no command to repeat
    have hstart : Remembers { machine := m } none := rfl
    have hnone : ∀ {p : String → Prop}, ∀ text ∈ (none : Option String), p text := by simp
    have hspelled : Lines.Cut (spelled lines) :=
      cut_spelledOut hnone (hcut.sublist (heard_sublist lines))
    have heffective : Lines.Cut (effective lines) := hspelled.sublist List.filter_sublist
    have hinput : m.converse input = Session.run { machine := m } ((spelled lines).map some) := by
      rw [Machine.converse, hlines, spelled, run_spelledOut hstart, run_heard]
    refine ⟨lines, hlines, ⟨Lines.ofBytes_join hspelled, ?_⟩, Lines.ofBytes_join heffective, ?_, ?_,
      ?_⟩
    · rw [converse_join m hspelled, hinput]
    · rw [converse_join m heffective, hinput]
      exact run_filter hstart (heard lines)
    · have hquit : ({ machine := m } : Session).latest? ≠ some .quit := by simp
      rw [Machine.converse, hlines, ← run_heard, spelled, length_spelledOut]
      exact length_heard_le hquit lines
    · intro before line after hsplit hblank
      exact (blank_spelledOut hnone hsplit hblank).2
  · intro s line
    refine ⟨?_, ?_, request_ne_empty s line⟩
    · intro c hc
      rw [answer_of_parse hc]
      exact ⟨rfl, rfl⟩
    · intro e he
      rw [latest?_answer, he]
      rfl

/-- A dialogue that repeats a command, across a mistake. -/
theorem converse_commands_repeat :
    ∃ m : Machine, m = .blank .standard .released (.cycle #[]) ∧
      m.converse (Lines.bytes "\nv\nv\nfoo\nv\nq\n") =
        m.converse (Lines.bytes "\nv\n \nfoo\n\nq\nr\n") ∧
      (m.converse (Lines.bytes "v\nv\nv\nq\n")).machine =
        (m.converse (Lines.bytes "\nv\n \nfoo\n\nq\nr\n")).machine ∧
      ∀ text, ("foo\n", text) ∈ ["\n", "v\n", "v\n", "foo\n", "v\n", "q\n"].zip
          (m.converse (Lines.bytes "\nv\n \nfoo\n\nq\nr\n")).outputs →
        text = "Unknown command foo\n" := by
  refine ⟨_, rfl, ?_⟩
  obtain ⟨lines, hlines, ⟨-, hsame⟩, -, hcondensed, -, -⟩ :=
    (converse_commands (.blank .standard .released (.cycle #[]))
      (Lines.text?_bytes "\nv\n \nfoo\n\nq\nr\n")).1
  have hcut : Lines.ofBytes (Lines.bytes "\nv\n \nfoo\n\nq\nr\n") =
      ["\n", "v\n", " \n", "foo\n", "\n", "q\n", "r\n"].map some := by decide +kernel
  obtain rfl : _ = lines :=
    (List.map_inj_right fun _ _ => Option.some.inj).1 (hcut.symm.trans hlines)
  have hspelled : spelled ["\n", "v\n", " \n", "foo\n", "\n", "q\n", "r\n"] =
      ["\n", "v\n", "v\n", "foo\n", "v\n", "q\n"] := by decide +kernel
  rw [effective, hspelled] at hcondensed
  rw [hspelled] at hsame
  refine ⟨hsame, hcondensed.machine, ?_⟩
  intro text htext
  have hidle : understood "foo\n" = false := by decide +kernel
  have hmistake : Command.parse "foo\n" = .error (.unknown "foo") := by rfl
  exact (hcondensed.idle _ htext hidle).eq_message hmistake nofun

end Session

end SpriteVM
