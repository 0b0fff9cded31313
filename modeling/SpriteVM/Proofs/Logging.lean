import SpriteVM.Proofs.Listing
import SpriteVM.Proofs.Waiting

/-!
# The log as a trace

What a step logs, line by line, and what the lines of a run tell about it. The step of a running
machine first announces the instruction that it found, if it found one (`Machine.Finds`), and what
the instruction remarks comes behind: `Machine.remarks` lists these messages, and `Machine.Remarks`
sorts them by the word of the instruction. Both look at the machine before the step, although the
program counter has moved on when the instruction runs.

No other message announces an instruction. So the announcements in the log of a run are the words
that the run executes, with their addresses and in their order; `Machine.Executes` says which ones
these are without the log, and `executes_iff` that the log has just them.
-/

namespace SpriteVM

open Numeral

namespace Message

/-- A message as the log shows it, with its level and its wording. -/
def told (message : Message) : Level × String :=
  (message.level, message.text)

/-- The address and the word of the instruction that a message announces. -/
def announced? : Message → Option (Nat × Word)
  | .executing address word _ => some (address, word)
  | _ => none

end Message

/-! ## Words with a remark -/

namespace Word

/-- The words that call a native routine. -/
def CallsRoutine (w : Word) : Prop :=
  w.fits "0nnn" ∧ ¬ w.fits "00E0" ∧ ¬ w.fits "00EE"

/-- The words that ask for a key. -/
def AsksKey (w : Word) : Prop :=
  w.fits "Ex9E" ∨ w.fits "ExA1"

end Word

namespace Instruction

variable {w : Word} {i : Instruction}

theorem callsRoutine_iff (h : ofWord? w = some i) : w.CallsRoutine ↔ i = .sys w.nnn := by
  have hclear : w.fits "00E0" ↔ i = .clear := fits_iff_eq_fill (j := .clear) h (by simp [pattern])
  rw [Word.CallsRoutine, hclear, fits_ret_iff h]
  constructor
  · rintro ⟨hfits, hne, hne'⟩
    -- the other two instructions of the family are left out
    have hfamily : w.family = 0 := by
      simpa [Word.fits, Word.nibbles, hexValue?_characters] using hfits
    rw [ofWord?, hfamily] at h
    grind
  · rintro rfl
    exact ⟨fits_of_codes (codes_of_ofWord? h), by simp, by simp⟩

theorem asksKey_iff (h : ofWord? w = some i) :
    w.AsksKey ↔ i = .skip (.keyDown w.x) ∨ i = .skip (.keyUp w.x) :=
  or_congr (fits_iff_eq_fill (j := .skip (.keyDown 0)) h (by simp [pattern, Condition.pattern]))
    (fits_iff_eq_fill (j := .skip (.keyUp 0)) h (by simp [pattern, Condition.pattern]))

theorem fits_loadGlyph_iff (h : ofWord? w = some i) : w.fits "Fx29" ↔ i = .loadGlyph w.x :=
  fits_iff_eq_fill (j := .loadGlyph 0) h (by simp [pattern])

end Instruction

namespace Machine

variable {m : Machine} {w : Word} {i : Instruction}

/-! ## What an instruction remarks -/

/-- What is logged while an instruction is applied. -/
def remarks (m : Machine) : Instruction → List Message
  | .sys nnn => [.routineIgnored nnn]
  | .ret => m.stack.head?.toList.map .returned
  | .skip c => m.warnings c
  | .loadGlyph x =>
    if Glyph.count ≤ (m.registers.cell x).toNat then [.noGlyph x (m.registers.cell x)] else []
  | _ => []

/-- An instruction that meets an obstacle has no remark: a return without an address cannot tell
one. -/
theorem remarks_of_obstacle {e : StepError} (h : m.obstacle? i = some e) : m.remarks i = [] := by
  cases i with
  | ret =>
    obtain ⟨hnil, -⟩ := Option.ite_none_right_eq_some.1 h
    rw [remarks, hnil]
    rfl
  | sys nnn | skip c | loadGlyph x => cases h
  | _ => rfl

/-- An instruction logs its remarks, whether it fails or not. -/
theorem execute_log (hm : m.Valid) (hi : i.InRange) : (Work.execute i m).log = m.remarks i := by
  cases ho : m.obstacle? i with
  | some e => rw [Work.execute_of_obstacle hm hi ho, remarks_of_obstacle ho]
  | none =>
    cases i with
    | sys nnn | clear | jump nnn | loadIndex nnn | waitKey x => rfl
    | jumpOffset nnn => rw [Work.execute_jumpOffset hi]; rfl
    | skip c => rw [Work.execute_skip hi]; rfl
    | loadByte x kk => rw [Work.execute_loadByte hi kk]; rfl
    | addByte x kk => rw [Work.execute_addByte hi kk]; rfl
    | random x kk => rw [Work.execute_random hi kk]; rfl
    | combine op x y => rw [Work.execute_combine hi.1 hi.2]; rfl
    | addIndex x => rw [Work.execute_addIndex hi hm.index]; rfl
    | loadGlyph x => rw [Work.execute_loadGlyph hi]; rfl
    | readDelay x => rw [Work.execute_readDelay hi]; rfl
    | setDelay x => rw [Work.execute_setDelay hi]; rfl
    | setSound x => rw [Work.execute_setSound hi]; rfl
    | ret =>
      obtain ⟨address, stack, hs⟩ := List.exists_cons_of_ne_nil (stack_ne_nil ho)
      rw [Work.execute_ret_cons hs, remarks, hs]
      rfl
    | call nnn => rw [Work.execute_call (length_stack_ne ho)]; rfl
    | draw x y n => rw [Work.execute_draw hi.1 hi.2.1 (overrun?_eq_none.1 ho)]; rfl
    | storeDecimal x => rw [Work.execute_storeDecimal hi (overrun?_eq_none.1 ho)]; rfl
    | storeRegisters x => rw [Work.execute_storeRegisters hi (overrun?_eq_none.1 ho)]; rfl
    | loadRegisters x => rw [Work.execute_loadRegisters hi (overrun?_eq_none.1 ho)]; rfl

/-- Moving the program counter logs nothing. -/
theorem perform_log (hm : m.Valid) (hi : i.InRange) : (Work.perform i m).log = m.remarks i := by
  rw [← execute_log hm hi]
  cases ho : m.obstacle? i with
  | some e => rw [Work.perform_of_obstacle hm hi ho, Work.execute_of_obstacle hm hi ho]
  | none =>
    obtain ⟨m', effect, log, hx, -, hp⟩ := Work.perform_of_no_obstacle hm hi ho
    rw [hp, hx]

/-- No remark reads the program counter or the remembered word. -/
theorem remarks_fetched (m : Machine) (i : Instruction) : m.fetched.remarks i = m.remarks i := by
  cases i with
  | skip c => cases c <;> rfl
  | _ => rfl

/-- An instruction makes one remark at most, and a remark announces no instruction. -/
theorem remarks_cases (m : Machine) (i : Instruction) :
    m.remarks i = [] ∨ ∃ message, m.remarks i = [message] ∧ message.announced? = none := by
  cases i with
  | sys nnn => exact .inr ⟨_, rfl, rfl⟩
  | ret =>
    rw [remarks]
    cases m.stack with
    | nil => exact .inl rfl
    | cons address stack => exact .inr ⟨_, rfl, rfl⟩
  | skip c =>
    cases c with
    | keyDown x | keyUp x =>
      rw [remarks, warnings, keyWarning]
      split
      · exact .inr ⟨_, rfl, rfl⟩
      · exact .inl rfl
    | _ => exact .inl rfl
  | loadGlyph x =>
    rw [remarks]
    split
    · exact .inr ⟨_, rfl, rfl⟩
    · exact .inl rfl
  | _ => exact .inl rfl

theorem length_remarks_le (m : Machine) (i : Instruction) : (m.remarks i).length ≤ 1 := by
  rcases m.remarks_cases i with h | ⟨message, h, -⟩
  · rw [h]
    exact Nat.zero_le 1
  · rw [h]
    exact Nat.le_refl 1

theorem announced?_remarks (m : Machine) (i : Instruction) :
    (m.remarks i).filterMap Message.announced? = [] := by
  rcases m.remarks_cases i with h | ⟨message, h, hnone⟩
  · rw [h, List.filterMap_nil]
  · rw [h, List.filterMap_cons_none hnone, List.filterMap_nil]

/-- The lines that come behind the announcement of an instruction, by the word of it. -/
structure Remarks (m : Machine) (w : Word) (lines : List (Level × String)) : Prop where
  /-- a return tells the address that it goes back to -/
  returns : ∀ a s, w.fits "00EE" → m.stack = a :: s →
    lines = [(.debug, "return to " ++ addressText a)]
  /-- without such an address it fails and tells nothing -/
  lost : w.fits "00EE" → m.stack = [] → lines = []
  /-- a native routine is not there -/
  routine : w.CallsRoutine →
    lines = [(.warn, "ignoring machine code routine at " ++ addressText w.nnn)]
  /-- a register that is asked for a key may hold none -/
  key : w.AsksKey →
    lines =
      if 0xF < (m.registers.cell w.x).toNat then
        [(.warn, registerName w.x ++ " holds " ++ byteText (m.registers.cell w.x) ++
          ", which is not a key")]
      else []
  /-- a register that is asked for a digit may hold none -/
  glyph : w.fits "Fx29" →
    lines =
      if 0xF < (m.registers.cell w.x).toNat then
        [(.warn, registerName w.x ++ " holds " ++ byteText (m.registers.cell w.x) ++
          ", which has no font sprite")]
      else []
  /-- the other instructions have nothing to tell -/
  silent : ¬ w.fits "00EE" → ¬ w.CallsRoutine → ¬ w.AsksKey → ¬ w.fits "Fx29" → lines = []

/-- The remarks of the instruction of a word are as the word says. -/
theorem remarks_told (h : Instruction.ofWord? w = some i) :
    m.Remarks w ((m.remarks i).map Message.told) where
  returns a s hret hs := by
    obtain rfl := (Instruction.fits_ret_iff h).1 hret
    rw [remarks, hs]
    rfl
  lost hret hs := by
    obtain rfl := (Instruction.fits_ret_iff h).1 hret
    rw [remarks, hs]
    rfl
  routine hroutine := by
    obtain rfl := (Instruction.callsRoutine_iff h).1 hroutine
    rfl
  key hkey := by
    rcases (Instruction.asksKey_iff h).1 hkey with rfl | rfl <;>
      exact apply_ite (List.map Message.told) ..
  glyph hglyph := by
    obtain rfl := (Instruction.fits_loadGlyph_iff h).1 hglyph
    exact apply_ite (List.map Message.told) ..
  silent hret hroutine hkey hglyph := by
    rw [Instruction.fits_ret_iff h] at hret
    rw [Instruction.callsRoutine_iff h] at hroutine
    rw [Instruction.asksKey_iff h] at hkey
    rw [Instruction.fits_loadGlyph_iff h] at hglyph
    have hc := Instruction.codes_of_ofWord? h
    cases i with
    | sys nnn => exact absurd (congrArg _ hc.2.1) hroutine
    | ret => exact absurd rfl hret
    | loadGlyph x => exact absurd (congrArg _ hc.2.2) hglyph
    | skip c =>
      cases c with
      | keyDown x => exact absurd (.inl (by rw [← hc.2.2])) hkey
      | keyUp x => exact absurd (.inr (by rw [← hc.2.2])) hkey
      | _ => rfl
    | _ => rfl

/-! ## What a step logs -/

/-- A running machine finds a word at its program counter that means an instruction. -/
structure Finds (m : Machine) (w : Word) (i : Instruction) : Prop where
  /-- no key is awaited -/
  running : m.activity = .running
  /-- there is a word -/
  fetched : fetch m.memory.cells.toArray m.counter = .ok w
  /-- it means the instruction -/
  decoded : decode w = .ok i

theorem Finds.instruction (h : m.Finds w i) : m.instruction = .ok i := by
  rw [Machine.instruction, h.fetched]
  exact h.decoded

theorem Finds.lt (h : m.Finds w i) : m.counter + 1 < memorySize :=
  (instruction_eq_ok.1 h.instruction).1

theorem Finds.eq_current (h : m.Finds w i) : w = m.current :=
  Except.ok.inj (h.fetched.symm.trans (fetch_of_lt h.lt))

/-- The machine while the word that it found is executed. -/
theorem Finds.fetched_eq (h : m.Finds w i) :
    m.fetched = { m with word := w, counter := (m.counter + 2) % 4096 } := by
  rw [h.eq_current]
  rfl

/-- A listing shows what is found. -/
theorem Finds.listing_eq (h : m.Finds w i) :
    m.listing m.counter 1 = [⟨m.counter, w, some i⟩] := by
  have hlisting : m.listing m.counter 1 = [m.memory.entry m.counter] := Memory.listing_of_lt h.lt
  rw [hlisting, ← decode_eq_ok.1 h.decoded, h.eq_current]
  rfl

theorem finds_of_instruction (ha : m.activity = .running) (h : m.instruction = .ok i) :
    m.Finds m.current i :=
  have ⟨hlt, hw⟩ := instruction_eq_ok.1 h
  ⟨ha, fetch_of_lt hlt, decode_eq_ok.2 hw⟩

/-- The word that is found is that of the two bytes at the program counter. -/
theorem finds_of_cells {a : Nat} {high low : UInt8} (ha : m.activity = .running)
    (hc : m.counter = a) (hlt : a + 1 < memorySize) (hhigh : m.memory.cell a = high)
    (hlow : m.memory.cell (a + 1) = low) (hw : Word.ofBytes high low = w)
    (h : decode w = .ok i) : m.Finds w i := by
  subst hc hhigh hlow hw
  exact ⟨ha, fetch_of_lt hlt, h⟩

/-- The step of a machine that finds an instruction announces it and performs it. -/
theorem next_of_finds (h : m.Finds w i) :
    m.next =
      { Work.perform i m.fetched with
        log := .executing m.counter w i :: (Work.perform i m.fetched).log } := by
  rw [next_running h.running, Work.cycle_of_ok h.instruction, h.eq_current]

theorem next_log_of_finds (hm : m.Valid) (h : m.Finds w i) :
    m.next.log = .executing m.counter w i :: m.remarks i := by
  rw [next_of_finds h, perform_log hm.fetched (inRange_of_instruction h.instruction),
    remarks_fetched]

/-- A step of a running machine that finds no instruction logs nothing. -/
theorem next_log_of_error {e : StepError} (ha : m.activity = .running)
    (h : m.instruction = .error e) : m.next.log = [] := by
  obtain ⟨word, hnext⟩ := next_of_error ha h
  rw [hnext]

/-- The lines that the next step of a machine logs. -/
structure Logs (m : Machine) (lines : List (Level × String)) : Prop where
  /-- a step that finds a key tells which one it stores where -/
  takes : ∀ r key, m.activity = .awaitingKey r → m.keyboard.Lowest key →
    m.next.machine.registers.cell r = UInt8.ofNat key ∧
    lines = [(.debug, "key " ++ hex 1 key ++ " pressed, stored into " ++ registerName r)]
  /-- a step that finds none tells nothing -/
  waits : ∀ r, m.activity = .awaitingKey r → m.keyboard.Quiet → lines = []
  /-- neither does one that finds no word -/
  noWord : ∀ e, m.activity = .running →
    fetch m.memory.cells.toArray m.counter = .error e → lines = []
  /-- nor one that finds a word without an instruction -/
  noInstruction : ∀ w e, m.activity = .running →
    fetch m.memory.cells.toArray m.counter = .ok w → decode w = .error e → lines = []
  /-- an instruction is announced as the listing has it, and at most one line follows -/
  finds : ∀ w i, m.Finds w i → ∃ entry rest,
    m.listing m.counter 1 = [entry] ∧ entry.address = m.counter ∧ entry.word = w ∧
    lines = (.debug, addressText m.counter ++ ": " ++ addressText w.toNat ++ " " ++
      entry.mnemonic) :: rest ∧
    rest.length ≤ 1 ∧ m.Remarks w rest

/-- A step logs these lines. -/
theorem next_logs (hm : m.Valid) : m.Logs (m.next.log.map Message.told) where
  takes r key ha hkey := by
    have hr := hm.awaited r ha
    rw [next_of_lowest hr ha hkey]
    exact ⟨(Bank.cell_put hr _ r).trans (if_pos rfl), rfl⟩
  waits r ha hquiet := by
    rw [next_of_quiet ha hquiet]
    rfl
  noWord e ha he := by
    have hmissing : m.instruction = .error e := by
      rw [instruction, he]
      rfl
    rw [next_log_of_error ha hmissing]
    rfl
  noInstruction w e ha hw he := by
    have hmissing : m.instruction = .error e := by
      rw [instruction, hw]
      exact he
    rw [next_log_of_error ha hmissing]
    rfl
  finds w i h := by
    refine ⟨_, (m.remarks i).map Message.told, h.listing_eq, rfl, rfl, ?_, ?_,
      remarks_told (decode_eq_ok.1 h.decoded)⟩
    · rw [next_log_of_finds hm h]
      rfl
    · rw [List.length_map]
      exact length_remarks_le m i

/-! ## What a run logs -/

/-- The words that a run executes, with their addresses. A step executes the word that it finds;
other than for `executes?`, it does not matter whether the instruction then fails. -/
inductive Executes : Machine → List Action → List (Nat × Word) → Prop where
  /-- nothing happens -/
  | rests (m : Machine) : Executes m [] []
  /-- a step executes the word at the program counter -/
  | step {m : Machine} {w : Word} {i : Instruction} {as : List Action} {trace : List (Nat × Word)}
      (h : m.Finds w i)
      (hrest : Executes
        (Work.perform i { m with word := w, counter := (m.counter + 2) % 4096 }).machine as trace) :
      Executes m (.next :: as) ((m.counter, w) :: trace)
  /-- a step finds nothing to execute, or something else than a step happens -/
  | passes {m : Machine} {a : Action} {as : List Action} {trace : List (Nat × Word)}
      (h : a = .next → ∀ w i, ¬ m.Finds w i)
      (hrest : Executes (m.act a).machine as trace) : Executes m (a :: as) trace

/-- The words that the log of a run announces, with their addresses. -/
def announced (m : Machine) (as : List Action) : List (Nat × Word) :=
  ((m.reports as).flatMap Report.log).filterMap Message.announced?

theorem announced_cons (m : Machine) (a : Action) (as : List Action) :
    m.announced (a :: as) =
      (m.act a).log.filterMap Message.announced? ++ (m.act a).machine.announced as := by
  rw [announced, reports, List.flatMap_cons, List.filterMap_append]
  rfl

theorem act_machine_of_finds (h : m.Finds w i) :
    (m.act .next).machine =
      (Work.perform i { m with word := w, counter := (m.counter + 2) % 4096 }).machine := by
  rw [act, next_of_finds h, h.fetched_eq]
  rfl

/-- The run goes on where the step ends. -/
theorem Executes.next {as : List Action} {trace : List (Nat × Word)} (h : m.Finds w i)
    (hrest : (m.act .next).machine.Executes as trace) :
    m.Executes (.next :: as) ((m.counter, w) :: trace) :=
  .step h (act_machine_of_finds h ▸ hrest)

/-- **Step lemma.** A step that finds an instruction announces this one. -/
theorem act_announces (hm : m.Valid) (h : m.Finds w i) :
    (m.act .next).log.filterMap Message.announced? = [(m.counter, w)] := by
  have hlog : (m.act .next).log = .executing m.counter w i :: m.remarks i := next_log_of_finds hm h
  rw [hlog, List.filterMap_cons, announced?_remarks]
  rfl

/-- **Step lemma.** No other action announces an instruction. -/
theorem act_announces_nothing {a : Action} (hm : m.Valid) (ha : a.Allowed ∨ a.HandsOff)
    (h : a = .next → ∀ w i, ¬ m.Finds w i) :
    (m.act a).log.filterMap Message.announced? = [] := by
  cases a with
  | tick => rfl
  | next =>
    show m.next.log.filterMap Message.announced? = []
    cases hm.outcome with
    | waits _ _ hnext | takes _ _ hnext | stalls _ _ _ hnext =>
      rw [hnext]
      rfl
    | fails hrun hi _ _ | executes hrun hi _ _ _ _ =>
      exact absurd (finds_of_instruction hrun hi) (h rfl _ _)
  | edit e =>
    cases e with
    | setAll states => rfl
    | _ =>
      simp only [act, actEdit, Keyboard.Edit.warning?]
      split <;> rfl
  | load rom =>
    by_cases hsize : rom.size ≤ programLimit
    · rw [act, load_of_le hsize]
      rfl
    · rw [act, load_of_lt (Nat.not_le.1 hsize)]
      rfl
  | follow flow =>
    rw [act, Work.follow_apply hm.counter]
    rfl
  | perform i =>
    obtain ⟨w, hw⟩ := ha.resolve_right id
    have hlog : (m.act (.perform i)).log = m.remarks i :=
      perform_log hm (Instruction.inRange_of_ofWord? hw)
    rw [hlog, announced?_remarks]
  | execute i =>
    obtain ⟨w, hw⟩ := ha.resolve_right id
    have hlog : (m.act (.execute i)).log = m.remarks i :=
      execute_log hm (Instruction.inRange_of_ofWord? hw)
    rw [hlog, announced?_remarks]

theorem act_valid {a : Action} (hm : m.Valid) (ha : a.Allowed ∨ a.HandsOff) :
    (m.act a).machine.Valid :=
  ha.elim (fun h => (act_keeps hm h).valid) fun h => (act_keeps_of_handsOff hm h).valid

/-- **Run lemma.** The words that a run announces are words that it executes. -/
theorem executes_announced {as : List Action} (hm : m.Valid)
    (has : ∀ a ∈ as, a.Allowed ∨ a.HandsOff) : m.Executes as (m.announced as) := by
  induction as generalizing m with
  | nil => exact .rests m
  | cons a as ih =>
    obtain ⟨ha, has⟩ := List.forall_mem_cons.1 has
    have hrest := ih (act_valid hm ha) has
    rw [announced_cons]
    by_cases h : ∃ w i, a = .next ∧ m.Finds w i
    · obtain ⟨w, i, rfl, hfinds⟩ := h
      rw [act_announces hm hfinds]
      exact .next hfinds hrest
    · have hno : a = .next → ∀ w i, ¬ m.Finds w i := fun hnext w i hf => h ⟨w, i, hnext, hf⟩
      rw [act_announces_nothing hm ha hno]
      exact .passes hno hrest

/-- **Run lemma.** The words that a run executes are announced. -/
theorem Executes.eq_announced {as : List Action} {trace : List (Nat × Word)} (hm : m.Valid)
    (has : ∀ a ∈ as, a.Allowed ∨ a.HandsOff) (h : m.Executes as trace) :
    m.announced as = trace := by
  -- every machine on the way is valid, so what it performs announces nothing of its own
  induction h with
  | rests m => rfl
  | step hfinds hrest ih =>
    obtain ⟨ha, has⟩ := List.forall_mem_cons.1 has
    have hvalid := act_valid hm ha
    rw [announced_cons, act_announces hm hfinds]
    rw [act_machine_of_finds hfinds] at hvalid ⊢
    rw [ih hvalid has, List.singleton_append]
  | passes hno hrest ih =>
    obtain ⟨ha, has⟩ := List.forall_mem_cons.1 has
    rw [announced_cons, act_announces_nothing hm ha hno, ih (act_valid hm ha) has, List.nil_append]

/-- The log has the words that a run executes, and no others. -/
theorem executes_iff {as : List Action} {trace : List (Nat × Word)} (hm : m.Valid)
    (has : ∀ a ∈ as, a.Allowed ∨ a.HandsOff) : m.Executes as trace ↔ m.announced as = trace :=
  ⟨Executes.eq_announced hm has, fun h => h ▸ executes_announced hm has⟩

/-- **The log is a trace of the execution.** A step that looks for a key tells the key and the
register when it finds one and nothing otherwise, and a step that finds no word or no instruction
tells nothing. Every other step first announces the word that it found: with the program counter
before the step, and with the text that a listing shows there. At most one line follows. A return
tells the address that it goes back to, a native routine is warned of, and a register that names no
key or no digit is; the other instructions tell nothing, and neither does a return that fails.

So the announcements in the log of a run are just the words that the run executes, each with its
address, in their order. -/
theorem log_traces (hm : m.Reachable) :
    m.Logs (m.next.log.map Message.told) ∧
    ∀ as : List Action, (∀ a ∈ as, a.Allowed ∨ a.HandsOff) → ∀ trace : List (Nat × Word),
      m.Executes as trace ↔
        ((m.reports as).flatMap Report.log).filterMap Message.announced? = trace :=
  ⟨next_logs hm.valid, fun _ has _ => executes_iff hm.valid has⟩

/-- A program that returns from nowhere, calls a native routine and runs into data. -/
theorem exists_returning :
    ∃ m : Machine, m.Reachable ∧ m.Finds 0x00EE .ret ∧ m.counter = 0x200 ∧ m.stack = [] ∧
      (m.run [.next, .tick]).Finds 0x0123 (.sys 0x123) ∧ (m.run [.next, .tick]).counter = 0x202 ∧
      ∀ w i, ¬ (m.run [.next, .tick, .next]).Finds w i := by
  obtain ⟨start, hstart, hrun, hcounter, hstack, hbytes⟩ :=
    exists_started ⟨"trace", [0x00, 0xEE, 0x01, 0x23, 0xFF, 0xFF]⟩ (by decide)
  have hret : start.Finds 0x00EE .ret :=
    finds_of_cells hrun hcounter (by decide) (hbytes 0 (by decide)) (hbytes 1 (by decide)) rfl
      (decode_eq_ok.2 (by decide))
  -- the return is passed over
  let second := start.fetched.tick
  have hsecond : start.run [.next, .tick] = second := by
    rw [run, act, next_of_obstacle hstart.valid hrun hret.instruction (if_pos hstack)]
    rfl
  have hcounter' : second.counter = 0x202 := by
    show wrap (start.counter + wordSize) = 0x202
    rw [hcounter]
    rfl
  have hsys : second.Finds 0x0123 (.sys 0x123) :=
    finds_of_cells hrun hcounter' (by decide) (hbytes 2 (by decide)) (hbytes 3 (by decide)) rfl
      (decode_eq_ok.2 (by decide))
  have hdata : second.next.machine.instruction = .error (.invalidWord 0xFFFF) := by
    rw [next_of_execute hsys.running hsys.instruction (Work.execute_sys 0x123) (wrap_lt _)]
    refine instruction_of_data hbytes rfl (k := 4) ?_ (by decide)
    show wrap (wrap (second.counter + wordSize)) = 0x204
    rw [hcounter']
    rfl
  have hthird : start.run [.next, .tick, .next] = second.next.machine := by
    rw [← hsecond]
    rfl
  refine ⟨start, hstart, hret, hcounter, hstack, hsecond ▸ hsys, hsecond ▸ hcounter', ?_⟩
  intro w i h
  rw [hthird] at h
  cases hdata.symm.trans h.instruction

/-- The return that fails is announced without a remark, the routine with a warning, and the data is
not announced. -/
theorem log_traces_return_routine :
    ∃ m : Machine, m.Reachable ∧
      m.next.log.map Message.told = [(.debug, "0x0200: 0x00EE RET")] ∧
      (m.run [.next, .tick]).next.log.map Message.told =
        [(.debug, "0x0202: 0x0123 SYS 0x0123"),
          (.warn, "ignoring machine code routine at 0x0123")] ∧
      ((m.reports [.next, .tick, .next, .next]).flatMap Report.log).filterMap Message.announced? =
        [(0x200, 0x00EE), (0x202, 0x0123)] := by
  obtain ⟨m, hm, hret, hcounter, hstack, hsys, hcounter', hdata⟩ := exists_returning
  have hm' : (m.run [.next, .tick]).Reachable := hm.run (by simp [Action.Allowed])
  have htrace : m.Executes [.next, .tick, .next, .next]
      [(m.counter, 0x00EE), ((m.run [.next, .tick]).counter, 0x0123)] :=
    .next hret (.passes (fun h => by cases h) (.next hsys (.passes (fun _ => hdata) (.rests _))))
  refine ⟨m, hm, ?_, ?_, ?_⟩
  · obtain ⟨entry, rest, hlisting, -, -, hlines, -, hrest⟩ := (log_traces hm).1.finds _ _ hret
    obtain rfl := List.singleton_inj.1 (hret.listing_eq.symm.trans hlisting)
    rw [hlines, hrest.lost (by decide) hstack, hcounter]
    decide
  · obtain ⟨entry, rest, hlisting, -, -, hlines, -, hrest⟩ := (log_traces hm').1.finds _ _ hsys
    obtain rfl := List.singleton_inj.1 (hsys.listing_eq.symm.trans hlisting)
    rw [hlines, hrest.routine ⟨by decide, by decide, by decide⟩, hcounter']
    decide
  · rw [((log_traces hm).2 _ (by simp [Action.Allowed]) _).1 htrace, hcounter, hcounter']

end Machine

end SpriteVM
