import SpriteVM.Proofs.Condensing
import SpriteVM.Proofs.Reachable

/-!
# Every line is answered

A dialogue goes on over every line but one that asks to quit or is not text.

* What a command does to the machine are actions of a host (`Command.respond_machine`), so that
  nothing it is asked for can be out of range (`Command.carried`).
* `Session.Answers` says for each kind of line what is printed and how the dialogue goes on, and
  `Session.Goes` says it of lines one after the other. Nothing else happens to a line that is heard
  (`answers_answer`).
* `Session.Stops` are the three ways for a dialogue to end.

`converse_answers` puts them together for the bytes of a whole input.
-/

namespace SpriteVM

/-! ## Commands as actions -/

namespace Machine

variable {m : Machine}

/-- A walk runs its steps up to the first one that fails. -/
theorem walk_machine (m : Machine) (count : Nat) :
    (m.walk count).machine = m.run (List.replicate (m.steps count).length .next) := by
  induction count generalizing m with
  | zero => rfl
  | succ count ih =>
    rw [walk, steps]
    cases h : m.next.result with
    | error e => rfl
    | ok hint =>
      rw [List.length_cons, List.replicate_succ]
      exact ih m.next.machine

theorem tickMany_machine (m : Machine) (count : Nat) :
    (m.tickMany count).machine = m.run (List.replicate count .tick) := by
  induction count generalizing m with
  | zero => rfl
  | succ count ih =>
    rw [List.replicate_succ]
    exact ih (m.act .tick).machine

end Machine

namespace Command

variable {m : Machine}

/-- What a command does to a machine, as actions of a host. -/
def actions (m : Machine) : Command → List Action
  | .step count => List.replicate (m.steps count).length .next
  | .tick count => List.replicate count .tick
  | .press key => [.edit (.press key)]
  | .release key => [.edit (.release key)]
  | _ => []

theorem allowed_of_mem_actions {c : Command} {a : Action} (h : a ∈ c.actions m) : a.Allowed := by
  cases c with
  | step count | tick count =>
    obtain rfl := List.eq_of_mem_replicate h
    trivial
  | press key | release key =>
    obtain rfl := List.mem_singleton.1 h
    rfl
  | _ => cases h

theorem respond_machine (m : Machine) (c : Command) :
    (c.respond m).machine = m.run (c.actions m) := by
  cases c with
  | step count => exact m.walk_machine count
  | tick count => exact m.tickMany_machine count
  | _ => rfl

/-- A command is carried out with all that it prints, and the machine after it is reached by actions
each of which gives an answer of its own: none asks for something that does not exist. -/
structure Carried (c : Command) (m : Machine) (text : String) (m' : Machine) : Prop where
  /-- what is printed are the lines of the response -/
  text : text = String.join ((c.respond m).lines.map Layout.line)
  /-- the machine is that of the response -/
  machine : m' = (c.respond m).machine
  /-- it is reached by actions -/
  run : m' = m.run (c.actions m)
  /-- the actions are answered -/
  answered : ∀ before a after, c.actions m = before ++ a :: after →
    a.Allowed ∧ a.Admits ((m.run before).act a).answer

/-- Every command can be carried out, whatever its arguments are. -/
theorem carried (c : Command) (hm : m.Valid) :
    c.Carried m (String.join ((c.respond m).lines.map Layout.line)) (c.respond m).machine where
  text := rfl
  machine := rfl
  run := respond_machine m c
  answered := by
    intro before a after h
    have hallowed : ∀ b ∈ before ++ a :: after, b.Allowed :=
      fun b hb => allowed_of_mem_actions (h ▸ hb)
    have hbefore : (m.run before).Valid :=
      (Machine.run_keeps hm fun b hb => hallowed b (List.mem_append_left _ hb)).valid
    have ha : a.Allowed := hallowed a (List.mem_append_right _ (List.mem_cons_self ..))
    exact ⟨ha, Machine.act_admits hbefore ha⟩

end Command

namespace Session

variable {s s' : Session} {line text : String} {c : Command}

/-! ## Answers -/

/-- What becomes of a line: what is printed for it and where the dialogue stands after it. -/
inductive Answers (s : Session) (line : String) : String → Session → Prop where
  /-- a command is carried out and becomes the latest one -/
  | command {c : Command} {text : String} {machine : Machine} (hparse : Command.parse line = .ok c)
      (hcarried : c.Carried s.machine text machine) :
      Answers s line text { machine, latest? := some c }
  /-- a line of blanks asks for the latest command again -/
  | again {c : Command} {text : String} {machine : Machine} (hblank : blank line = true)
      (hlatest : s.latest? = some c) (hcarried : c.Carried s.machine text machine) :
      Answers s line text { machine, latest? := some c }
  /-- a line of blanks asks for nothing when there is no latest command -/
  | nothing (hblank : blank line = true) (hlatest : s.latest? = none) : Answers s line "" s
  /-- a mistake is told and changes nothing -/
  | mistake {e : CommandError} (hparse : Command.parse line = .error e)
      (hblank : blank line = false) : Answers s line (Layout.line e.message) s

/-- What becomes of lines that are heard one after the other. -/
inductive Goes : Session → List String → List String → Session → Prop where
  /-- there is no line -/
  | nil {s : Session} : Goes s [] [] s
  /-- the other lines are heard where the first one leaves the dialogue -/
  | cons {s s' s'' : Session} {line text : String} {lines texts : List String}
      (h : Answers s line text s') (hs : Goes s' lines texts s'') :
      Goes s (line :: lines) (text :: texts) s''

/-- The ways for a dialogue to stop in front of the lines that are left: what is printed after the
last prompt, and whether it ends in failure. -/
inductive Stops : List (List UInt8) → String → Bool → Prop where
  /-- there are no more lines -/
  | endOfInput : Stops [] "\n" false
  /-- a line asks for it -/
  | quit {line : String} {later : List (List UInt8)} (hparse : Command.parse line = .ok .quit) :
      Stops (Lines.bytes line :: later) "" false
  /-- a line is not text -/
  | notText {line : List UInt8} {later : List (List UInt8)} (htext : Lines.text? line = none) :
      Stops (line :: later) "" true

/-- A dialogue stops in front of a line for one of two reasons. -/
theorem Stops.of_cons {line : List UInt8} {later : List (List UInt8)} {tail : String}
    {failed : Bool} (h : Stops (line :: later) tail failed) :
    (∃ text, line = Lines.bytes text ∧ Command.parse text = .ok .quit) ∨
      Lines.text? line = none ∧ tail = "" ∧ failed = true := by
  cases h with
  | quit hparse => exact .inl ⟨_, rfl, hparse⟩
  | notText htext => exact .inr ⟨htext, rfl, rfl⟩

/-- A dialogue over lines: the lines that it hears, and how it stops in front of the rest. -/
structure Course (s : Session) (lines : List (List UInt8)) where
  /-- the lines that are heard -/
  heard : List String
  /-- what is printed for each of them -/
  texts : List String
  /-- where the dialogue stands after them -/
  last : Session
  /-- the lines that are left -/
  rest : List (List UInt8)
  /-- what is printed after the last prompt -/
  tail : String
  /-- whether the dialogue ends in failure -/
  failed : Bool
  /-- the lines are heard in order -/
  lines_eq : lines = heard.map Lines.bytes ++ rest
  /-- no line that is heard asks to quit -/
  goesOn : ∀ line ∈ heard, Command.parse line ≠ .ok .quit
  /-- each of them is answered once -/
  goes : Goes s heard texts last
  /-- then the dialogue stops -/
  stops : Stops rest tail failed

/-- The transcript of a dialogue that takes this course: it is at the end where the lines that were
heard lead to, and all that is printed is a prompt and a text for each of them, and a last prompt. -/
structure Course.Transcribed {lines : List (List UInt8)} (c : s.Course lines) (t : Transcript) :
    Prop where
  /-- nothing is carried out after the lines that were heard -/
  machine : t.machine = c.last.machine
  /-- what is printed -/
  text : t.text = String.join (c.texts.map (prompt ++ ·)) ++ prompt ++ c.tail
  /-- whether the dialogue ended in failure -/
  failed : t.ending.error?.isSome = c.failed

/-- A dialogue may go on from here: the machine is reachable, and no line of blanks asks to quit. -/
structure Ready (s : Session) : Prop where
  /-- the machine is reachable -/
  machine : s.machine.Reachable
  /-- the latest command was not to quit -/
  latest : s.latest? ≠ some .quit

/-- Carrying out a command other than to quit leads on. -/
theorem ready_carryOut (hs : s.Ready) (hc : c ≠ .quit) : (s.carryOut c).session.Ready where
  machine := by
    show (c.respond s.machine).machine.Reachable
    rw [Command.respond_machine]
    exact hs.machine.run fun _ ha => Command.allowed_of_mem_actions ha
  latest := fun h => hc (Option.some.inj h)

/-- **Step lemma.** A line that does not ask to quit is answered, and the dialogue goes on. -/
theorem answers_answer (hs : s.Ready) (hquit : Command.parse line ≠ .ok .quit) :
    s.Answers line (s.answer line).text (s.answer line).session ∧
      (s.answer line).quits = false ∧ (s.answer line).session.Ready := by
  cases line_kind line with
  | @command c hparse =>
    have hc : c ≠ .quit := fun h => hquit (h ▸ hparse)
    rw [answer_of_parse hparse]
    exact ⟨.command hparse (c.carried hs.machine.valid), beq_eq_false_iff_ne.2 hc,
      ready_carryOut hs hc⟩
  | blank hparse hblank =>
    cases hlatest : s.latest? with
    | none =>
      rw [answer_of_nothing hblank hlatest]
      exact ⟨.nothing hblank hlatest, rfl, hs⟩
    | some c =>
      have hc : c ≠ .quit := fun h => hs.latest (h ▸ hlatest)
      rw [answer_of_repeat hblank hlatest]
      exact ⟨.again hblank hlatest (c.carried hs.machine.valid), beq_eq_false_iff_ne.2 hc,
        ready_carryOut hs hc⟩
  | mistake hparse he hblank =>
    rw [answer_of_mistake hparse he]
    exact ⟨.mistake hparse hblank, rfl, hs⟩

/-- The course of a dialogue that stops at once. -/
def Course.stop {rest : List (List UInt8)} {tail : String} {failed : Bool}
    (h : Stops rest tail failed) : s.Course rest where
  heard := []
  texts := []
  last := s
  rest := rest
  tail := tail
  failed := failed
  lines_eq := rfl
  goesOn := nofun
  goes := .nil
  stops := h

/-- The course of a dialogue with a line in front. -/
def Course.hear {lines : List (List UInt8)} (c : s'.Course lines)
    (hquit : Command.parse line ≠ .ok .quit) (h : s.Answers line text s') :
    s.Course (Lines.bytes line :: lines) where
  heard := line :: c.heard
  texts := text :: c.texts
  last := c.last
  rest := c.rest
  tail := c.tail
  failed := c.failed
  lines_eq := congrArg (Lines.bytes line :: ·) c.lines_eq
  goesOn := List.forall_mem_cons.2 ⟨hquit, c.goesOn⟩
  goes := .cons h c.goes
  stops := c.stops

theorem Course.Transcribed.hear {lines : List (List UInt8)} {c : s'.Course lines} {t : Transcript}
    (ht : c.Transcribed t) (hquit : Command.parse line ≠ .ok .quit) (h : s.Answers line text s')
    (log : List SessionEntry) : (c.hear hquit h).Transcribed (t.after text log) where
  machine := ht.machine
  text := by
    have htext : (t.after text log).text = prompt ++ text ++ t.text := by
      simp only [Transcript.text, Transcript.after, List.map_cons, String.join_cons,
        String.append_assoc]
    rw [htext, ht.text]
    simp only [Course.hear, List.map_cons, String.join_cons, String.append_assoc]
  failed := ht.failed

/-- **Run lemma.** A dialogue takes its course over any lines. The induction is on the lines that are
left. -/
theorem exists_course (hs : s.Ready) (lines : List (List UInt8)) :
    ∃ c : s.Course lines, c.last.Ready ∧ c.Transcribed (s.run (lines.map Lines.text?)) := by
  induction lines generalizing s with
  | nil => exact ⟨.stop .endOfInput, hs, rfl, rfl, rfl⟩
  | cons bytes later ih =>
    rw [List.map_cons]
    cases htext : Lines.text? bytes with
    | none => exact ⟨.stop (.notText htext), hs, rfl, rfl, rfl⟩
    | some line =>
      obtain rfl := Lines.text?_eq_some.1 htext
      by_cases hquit : Command.parse line = .ok .quit
      · have hquits := quits_of_asksToQuit s (asksToQuit_iff.2 hquit)
        rw [run_of_quits hquits, answer_of_parse hquit]
        exact ⟨.stop (.quit hquit), hs, rfl, rfl, rfl⟩
      · obtain ⟨hanswers, hgoes, hready⟩ := answers_answer hs hquit
        obtain ⟨c, hlast, hc⟩ := ih hready
        rw [run_of_goes hgoes]
        exact ⟨c.hear hquit hanswers, hlast, hc.hear hquit hanswers _⟩

/-! ## Whole dialogues -/

/-- **Every line is answered once.** Boot a ROM that fits, and take any bytes as the input. Of its
lines the dialogue hears those in front of the first one that asks to quit or is not text, and each
of them is answered: a command is carried out, whatever its arguments are and whatever becomes of it,
and a mistake is told. What is printed is, for each line that is heard, the prompt and the answer, and
then the prompt once more, with a line feed when the input is at its end. The dialogue ends in failure
if a line is not text, and never otherwise. No later line is carried out, and the machine is reachable
at the end. -/
theorem converse_answers {rom : Rom} {random : ByteSource} (hrom : rom.size ≤ programLimit) :
    ∃ m, Machine.boot rom .standard .released random = .ok m ∧
      ∀ input : List UInt8, ∃ lines, Lines.Pieces lines ∧ lines.flatten = input ∧
        ∃ c : Course { machine := m } lines, c.last.machine.Reachable ∧
          c.Transcribed (m.converse input) := by
  obtain ⟨m, hboot⟩ : ∃ m, Machine.boot rom .standard .released random = .ok m :=
    ⟨_, Machine.boot_eq_ok.2 ⟨hrom, rfl⟩⟩
  refine ⟨m, hboot, fun input => ⟨Lines.split input, Lines.pieces_split input,
    Lines.flatten_split input, ?_⟩⟩
  have hready : Ready { machine := m } := ⟨.boot hboot, nofun⟩
  obtain ⟨c, hlast, hc⟩ := exists_course hready (Lines.split input)
  exact ⟨c, hlast.machine, hc⟩

/-- A dialogue over a mistake and bytes that are not text. -/
theorem converse_answers_mistake :
    ∃ m, Machine.boot ⟨"shell", [0x00, 0xEE]⟩ .standard .released (.cycle #[]) = .ok m ∧
      (m.converse (Lines.bytes "foo\n" ++ 0xFF :: Lines.bytes "q\n")).text =
        "(debugger) Unknown command foo\n(debugger) " ∧
      (m.converse (Lines.bytes "foo\n" ++ 0xFF :: Lines.bytes "q\n")).ending.error?.isSome := by
  obtain ⟨m, hboot, hconverse⟩ := @converse_answers ⟨"shell", [0x00, 0xEE]⟩ (.cycle #[]) (by decide)
  obtain ⟨lines, hlines, hinput,
      ⟨heard, texts, last, rest, tail, failed, hheard, _, hgoes, hstops⟩, -, -, htext, hfailed⟩ :=
    hconverse (Lines.bytes "foo\n" ++ 0xFF :: Lines.bytes "q\n")
  dsimp only at htext hfailed
  have hmistake : Command.parse "foo\n" = .error (.unknown "foo") := by rfl
  have hnotText : ∀ line, Lines.bytes line ≠ 0xFF :: Lines.bytes "q\n" := by
    intro line h
    have hnone : Lines.text? (0xFF :: Lines.bytes "q\n") = none := by decide +kernel
    cases (Lines.text?_eq_some.2 h.symm).symm.trans hnone
  have hsplit : lines = [Lines.bytes "foo\n", 0xFF :: Lines.bytes "q\n"] := by
    rw [← hlines.split_flatten, hinput]
    decide +kernel
  rw [hsplit] at hheard
  cases hgoes with
  | nil =>
    -- the first line is text and does not ask to quit
    obtain rfl : rest = _ := hheard.symm
    obtain ⟨line, hline, hparse⟩ | ⟨hnone, -⟩ := hstops.of_cons
    · obtain rfl := Lines.bytes_inj hline
      cases hmistake.symm.trans hparse
    · cases (Lines.text?_bytes "foo\n").symm.trans hnone
  | cons hanswers hs =>
    obtain ⟨hfirst, hrest⟩ := List.cons.inj hheard
    obtain rfl := Lines.bytes_inj hfirst
    cases hs with
    | cons => exact absurd (List.cons.inj hrest).1.symm (hnotText _)
    | nil =>
      obtain rfl : rest = _ := hrest.symm
      obtain ⟨line, hline, -⟩ | ⟨-, rfl, rfl⟩ := hstops.of_cons
      · exact absurd hline.symm (hnotText line)
      have hfoo : blank "foo\n" = false := by decide +kernel
      cases hanswers with
      | command hparse => cases hmistake.symm.trans hparse
      | again hblank | nothing hblank => cases hfoo.symm.trans hblank
      | mistake hparse =>
        obtain rfl := Except.error.inj (hmistake.symm.trans hparse)
        exact ⟨m, hboot, htext.trans (by decide +kernel), hfailed⟩

end Session

end SpriteVM
