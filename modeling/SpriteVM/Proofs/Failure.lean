import SpriteVM.Proofs.Reachable

/-!
# Failed steps

What a failed step leaves behind and when a step fails. There are two ways to fail. Either there is
no instruction at the program counter; then at most the remembered word changes, and the machine is
stuck (`Stuck`): it fails in the same way for as long as only steps, ticks and keys happen to it. Or
an instruction meets an obstacle; then it was passed over, and nothing else changes. `failure_frame`
collects what follows for the state, `next_fails_iff` says for which words each error comes up.
-/

namespace SpriteVM

/-- The errors of a step that finds no instruction to execute. -/
def StepError.Stalls : StepError → Prop
  | .noWord .. | .invalidWord _ => True
  | _ => False

namespace Machine

variable {m : Machine} {e : StepError}

/-! ## The two ways to fail -/

/-- An instruction is missing for one of the stalling reasons. -/
theorem stalls_of_instruction (h : m.instruction = .error e) : e.Stalls := by
  obtain ⟨-, rfl⟩ | ⟨-, -, rfl⟩ := instruction_eq_error.1 h <;> trivial

/-- No obstacle is a stalling reason. -/
theorem not_stalls_of_obstacle? {i : Instruction} (h : m.obstacle? i = some e) : ¬ e.Stalls := by
  cases i with
  | call nnn | ret =>
    obtain ⟨-, ⟨⟩⟩ := Option.ite_none_right_eq_some.1 h
    exact id
  | draw x y n | storeDecimal x | storeRegisters x | loadRegisters x =>
    obtain ⟨-, rfl⟩ := overrun?_eq_some.1 h
    exact id
  | _ => cases h

/-- What a step fails with, if it does. -/
def failure? (m : Machine) : Option StepError :=
  match m.activity with
  | .awaitingKey _ => none
  | .running =>
    match m.instruction with
    | .error e => some e
    | .ok i => m.fetched.obstacle? i

theorem failure?_of_error (ha : m.activity = .running) (h : m.instruction = .error e) :
    m.failure? = some e := by
  rw [failure?, ha, h]

theorem failure?_of_ok {i : Instruction} (ha : m.activity = .running) (h : m.instruction = .ok i) :
    m.failure? = m.fetched.obstacle? i := by
  rw [failure?, ha, h]

/-- A step without an instruction fails and changes the remembered word at most. -/
theorem next_of_error (ha : m.activity = .running) (h : m.instruction = .error e) :
    ∃ word, m.next = { machine := { m with word }, result := .error e } := by
  rw [next_running ha]
  exact Work.cycle_of_error h

/-- An instruction that meets an obstacle is passed over. -/
theorem next_of_obstacle {i : Instruction} (hm : m.Valid) (ha : m.activity = .running)
    (h : m.instruction = .ok i) (ho : m.fetched.obstacle? i = some e) :
    m.next =
      { machine := m.fetched, result := .error e, log := [.executing m.counter m.current i] } := by
  rw [next_running ha, Work.cycle_of_ok h,
    Work.perform_of_obstacle hm.fetched (inRange_of_instruction h) ho]

/-- An instruction that meets no obstacle is executed, and the program counter moves as it says. -/
theorem next_of_no_obstacle {i : Instruction} (hm : m.Valid) (ha : m.activity = .running)
    (h : m.instruction = .ok i) (ho : m.fetched.obstacle? i = none) :
    ∃ m' effect log, Work.execute i m.fetched = { machine := m', result := .ok effect, log } ∧
      m.fetched.Settled i m' ∧
      m.next =
        { machine := { m' with counter := Work.target m.fetched.counter effect.flow }
          result := .ok effect.hint
          log := .executing m.counter m.current i :: log } := by
  obtain ⟨m', effect, log, hx, hs, hp⟩ :=
    Work.perform_of_no_obstacle hm.fetched (inRange_of_instruction h) ho
  exact ⟨m', effect, log, hx, hs, by rw [next_running ha, Work.cycle_of_ok h, hp]⟩

/-- What an instruction leads to on its own, the step that executes it leads to. -/
theorem next_of_execute {i : Instruction} {m' : Machine} {effect : Effect} {log : List Message}
    (ha : m.activity = .running) (hi : m.instruction = .ok i)
    (hx : Work.execute i m.fetched = { machine := m', result := .ok effect, log })
    (hc : m'.counter < memorySize) :
    m.next =
      { machine := { m' with counter := Work.target m'.counter effect.flow }
        result := .ok effect.hint
        log := .executing m.counter m.current i :: log } := by
  rw [next_running ha, Work.cycle_of_ok hi, Work.perform_of_execute hx hc]

/-- The outcome of a step is what `failure?` foretells. -/
theorem next_result_eq_error (hm : m.Valid) : m.next.result = .error e ↔ m.failure? = some e := by
  cases ha : m.activity with
  | awaitingKey r =>
    obtain ⟨hint, hok⟩ := poll_succeeds (m := m) (hm.awaited r ha)
    simp [next_awaiting ha, hok, failure?, ha]
  | running =>
    cases h : m.instruction with
    | error e' =>
      obtain ⟨word, hnext⟩ := next_of_error ha h
      simp [hnext, failure?_of_error ha h]
    | ok i =>
      rw [failure?_of_ok ha h]
      cases ho : m.fetched.obstacle? i with
      | some e' => simp [next_of_obstacle hm ha h ho]
      | none =>
        obtain ⟨m', effect, log, -, -, hnext⟩ := next_of_no_obstacle hm ha h ho
        simp [hnext]

theorem next_result_eq_ok (hm : m.Valid) :
    (∃ hint, m.next.result = .ok hint) ↔ ∀ e, m.failure? ≠ some e := by
  cases h : m.next.result with
  | error e => simp [(next_result_eq_error hm).1 h]
  | ok hint => simp [← next_result_eq_error hm, h]

/-- A failed step comes from a running machine, and stalls or passes over an instruction. -/
theorem next_error_cases (hm : m.Valid) (he : m.next.result = .error e) :
    m.activity = .running ∧
      ((m.instruction = .error e ∧ m.next.machine = { m with word := m.next.machine.word }) ∨
        ∃ i, m.instruction = .ok i ∧ m.fetched.obstacle? i = some e ∧
          m.next.machine = m.fetched) := by
  rw [next_result_eq_error hm] at he
  have ha : m.activity = .running := by
    cases ha : m.activity with
    | running => rfl
    | awaitingKey r =>
      rw [failure?, ha] at he
      cases he
  refine ⟨ha, ?_⟩
  cases h : m.instruction with
  | error e' =>
    obtain rfl := Option.some.inj ((failure?_of_error ha h).symm.trans he)
    obtain ⟨word, hnext⟩ := next_of_error ha h
    exact .inl ⟨rfl, by rw [hnext]⟩
  | ok i =>
    rw [failure?_of_ok ha h] at he
    exact .inr ⟨i, rfl, he, by rw [next_of_obstacle hm ha h he]⟩

/-! ## Stuck machines -/

/-- A machine that runs and has no instruction at its program counter. -/
structure Stuck (m : Machine) (e : StepError) : Prop where
  /-- it does not wait for a key -/
  running : m.activity = .running
  /-- why there is no instruction -/
  missing : m.instruction = .error e

theorem Stuck.next_result (h : m.Stuck e) : m.next.result = .error e := by
  obtain ⟨word, hnext⟩ := next_of_error h.running h.missing
  rw [hnext]

/-- The parts of a machine that make it stuck. -/
theorem Stuck.congr {m' : Machine} (h : m.Stuck e) (ha : m'.activity = m.activity)
    (hmem : m'.memory = m.memory) (hc : m'.counter = m.counter) : m'.Stuck e :=
  ⟨ha.trans h.running, (instruction_congr hmem hc).trans h.missing⟩

/-- **Step lemma.** Steps, ticks and keys leave a stuck machine stuck for the same reason. -/
theorem Stuck.act {a : Action} (h : m.Stuck e) (ha : a.InPlay) : (m.act a).machine.Stuck e := by
  cases a with
  | next =>
    obtain ⟨word, hnext⟩ := next_of_error h.running h.missing
    rw [Machine.act, hnext]
    exact h.congr rfl rfl rfl
  | tick => exact h.congr rfl rfl rfl
  | edit e => exact h.congr rfl rfl rfl
  | load | follow | perform | execute => cases ha

/-- **Run lemma.** A stuck machine stays stuck for the same reason. -/
theorem Stuck.run {as : List Action} (h : m.Stuck e) (has : ∀ a ∈ as, a.InPlay) :
    (m.run as).Stuck e := by
  induction as generalizing m with
  | nil => exact h
  | cons a as ih =>
    exact ih (h.act (has a (List.mem_cons_self ..))) fun b hb => has b (List.mem_cons_of_mem _ hb)

/-! ## What a failure leaves behind -/

/-- Work on an instruction that fails leaves the machine as it was, the program counter included. -/
theorem execute_error_machine {i : Instruction} (hm : m.Valid) (hi : i.InRange)
    (he : (Work.execute i m).result = .error e) : (Work.execute i m).machine = m := by
  cases h : m.obstacle? i with
  | some e' => rw [Work.execute_of_obstacle hm hi h]
  | none =>
    obtain ⟨m', effect, log, hx, -⟩ := Work.execute_of_no_obstacle hm hi h
    rw [hx] at he
    cases he

theorem perform_error_machine {i : Instruction} (hm : m.Valid) (hi : i.InRange)
    (he : (Work.perform i m).result = .error e) : (Work.perform i m).machine = m := by
  cases h : m.obstacle? i with
  | some e' => rw [Work.perform_of_obstacle hm hi h]
  | none =>
    obtain ⟨m', effect, log, -, -, hp⟩ := Work.perform_of_no_obstacle hm hi h
    rw [hp] at he
    cases he

/-- **Failures change next to nothing.** A failed step changes at most the remembered word and the
program counter. When there was no instruction the program counter stays, and every later step fails
in the same way as long as only steps, ticks and keys happen. When an instruction failed the program
counter is past it. An instruction that is executed or performed on its own and fails changes
nothing at all. -/
theorem failure_frame (hm : m.Reachable) :
    (∀ e, m.next.result = .error e →
      m.next.machine =
        { m with word := m.next.machine.word, counter := m.next.machine.counter } ∧
      (e.Stalls → m.next.machine.counter = m.counter ∧
        ∀ as : List Action, (∀ a ∈ as, a.InPlay) →
          (m.next.machine.run as).next.result = .error e) ∧
      (¬ e.Stalls → m.next.machine.counter = (m.counter + 2) % 0x1000)) ∧
    ∀ w i, Instruction.ofWord? w = some i →
      (∀ e, (Work.execute i m).result = .error e → (Work.execute i m).machine = m) ∧
      (∀ e, (Work.perform i m).result = .error e → (Work.perform i m).machine = m) := by
  constructor
  · intro e he
    obtain ⟨ha, ⟨hmissing, hnext⟩ | ⟨i, hi, ho, hnext⟩⟩ := next_error_cases hm.valid he
    -- no instruction: the machine is stuck from now on
    · have hcounter : m.next.machine.counter = m.counter := by rw [hnext]
      have hstuck : m.next.machine.Stuck e := Stuck.act (a := .next) ⟨ha, hmissing⟩ trivial
      refine ⟨?_, ?_, ?_⟩
      · rw [hcounter]
        exact hnext
      · intro _
        refine ⟨hcounter, ?_⟩
        intro as has
        exact (hstuck.run has).next_result
      · intro hs
        exact absurd (stalls_of_instruction hmissing) hs
    -- an obstacle: the instruction was passed over
    · refine ⟨?_, ?_, ?_⟩
      · rw [hnext]
        rfl
      · intro hs
        exact absurd hs (not_stalls_of_obstacle? ho)
      · intro _
        rw [hnext]
        rfl
  · intro w i hw
    have hi := Instruction.inRange_of_ofWord? hw
    constructor
    · intro e he
      exact execute_error_machine hm.valid hi he
    · intro e he
      exact perform_error_machine hm.valid hi he

/-- A program that returns from nowhere and then runs into data. -/
theorem failure_frame_return_data :
    ∃ m : Machine, m.Reachable ∧ m.next.result = .error .stackEmpty ∧
      m.next.machine.counter = 0x202 ∧
      m.next.machine.next.result = .error (.invalidWord 0xFFFF) ∧
      (m.next.machine.next.machine.run [.tick, .next, .edit (.press 3)]).next.result =
        .error (.invalidWord 0xFFFF) := by
  obtain ⟨start, hstart, hrun, hcounter, hstack, hbytes⟩ :=
    exists_started ⟨"data", [0x00, 0xEE, 0xFF, 0xFF]⟩ (by decide)
  have hret : start.instruction = .ok .ret :=
    instruction_of_cells hcounter (by decide) (hbytes 0 (by decide)) (hbytes 1 (by decide))
  have hdata : start.fetched.instruction = .error (.invalidWord 0xFFFF) := by
    have hpast : start.fetched.counter = 0x202 := by
      rw [fetched, hcounter]
      rfl
    exact instruction_of_cells hpast (by decide) (hbytes 2 (by decide)) (hbytes 3 (by decide))
  have hnext := next_of_obstacle hstart.valid hrun hret (e := .stackEmpty) (if_pos hstack)
  have hresult : start.next.result = .error .stackEmpty := by rw [hnext]
  have hresult' : start.next.machine.next.result = .error (.invalidWord 0xFFFF) := by
    rw [hnext]
    exact Stuck.next_result ⟨hrun, hdata⟩
  have hreach : start.next.machine.Reachable := hstart.act (a := .next) trivial
  have hframe := (failure_frame hstart).1 _ hresult
  have hstuck := (failure_frame hreach).1 _ hresult'
  refine ⟨start, hstart, hresult, ?_, hresult', (hstuck.2.1 trivial).2 _ ?_⟩
  · rw [hframe.2.2 id, hcounter]
    rfl
  · simp only [List.forall_mem_cons, Action.InPlay]
    exact ⟨trivial, trivial, rfl, fun _ h => absurd h List.not_mem_nil⟩

end Machine

/-! ## When a step fails -/

/-- How many bytes from the index register on an instruction accesses, if it accesses memory. -/
def Instruction.span? : Instruction → Option Nat
  | .draw _ _ n => some n
  | .storeDecimal _ => some 3
  | .storeRegisters x | .loadRegisters x => some (x + 1)
  | _ => none

/-- The words whose instruction accesses `count` bytes from the index register on. -/
def Word.Spans (w : Word) (count : Nat) : Prop :=
  w.fits "Dxyn" ∧ count = w.n ∨ w.fits "Fx33" ∧ count = 3 ∨
    (w.fits "Fx55" ∨ w.fits "Fx65") ∧ count = w.x + 1

namespace Instruction

variable {w : Word} {i : Instruction}

theorem fits_call_iff (h : ofWord? w = some i) : w.fits "2nnn" ↔ ∃ nnn, i = .call nnn := by
  rw [fits_iff_pattern_eq h (by simp [patterns]) (by simp), pattern_eq_call]

theorem fits_ret_iff (h : ofWord? w = some i) : w.fits "00EE" ↔ i = .ret := by
  rw [fits_iff_pattern_eq h (by simp [patterns]) (by simp), pattern_eq_ret]

theorem spans_iff {count : Nat} (h : ofWord? w = some i) :
    w.Spans count ↔ i.span? = some count := by
  have hc := codes_of_ofWord? h
  have hfits : ∀ p ∈ patterns, p ≠ "0nnn" → (w.fits p ↔ i.pattern = p) := by
    intro p hp hne
    exact fits_iff_pattern_eq h hp hne
  rw [Word.Spans, hfits "Dxyn" (by simp [patterns]) (by simp),
    hfits "Fx33" (by simp [patterns]) (by simp), hfits "Fx55" (by simp [patterns]) (by simp),
    hfits "Fx65" (by simp [patterns]) (by simp)]
  cases i with
  | skip c => cases c <;> simp [pattern, Condition.pattern, span?]
  | combine op x y => cases op <;> simp [pattern, Alu.pattern, span?]
  | draw x y n => simp [pattern, span?, hc.2.2.2, eq_comm]
  | storeRegisters x | loadRegisters x => simp [pattern, span?, hc.2.2, eq_comm]
  | _ => simp [pattern, span?, eq_comm]

end Instruction

namespace Machine

variable {m : Machine} {e : StepError}

theorem obstacle?_eq_some {i : Instruction} :
    m.obstacle? i = some e ↔
      ((∃ nnn, i = .call nnn) ∧ m.stack.length = stackLimit ∧ e = .stackFull) ∨
      (i = .ret ∧ m.stack = [] ∧ e = .stackEmpty) ∨
      ∃ count, i.span? = some count ∧ memorySize < m.index + count ∧
        e = .outOfBounds m.index count := by
  cases i with
  | call nnn | ret => simp [obstacle?, Instruction.span?, eq_comm]
  | draw x y n | storeDecimal x | storeRegisters x | loadRegisters x =>
    simp [obstacle?, Instruction.span?, overrun?_eq_some]
  | _ => simp [obstacle?, Instruction.span?]

/-- When a step fails, in terms of the word at the program counter. -/
theorem failure?_eq_some (ha : m.activity = .running) (hlt : m.counter + 1 < memorySize) :
    m.failure? = some e ↔
      ((∀ p ∈ Instruction.patterns, ¬ m.current.fits p) ∧ e = .invalidWord m.current) ∨
      (m.current.fits "2nnn" ∧ m.stack.length = stackLimit ∧ e = .stackFull) ∨
      (m.current.fits "00EE" ∧ m.stack = [] ∧ e = .stackEmpty) ∨
      ∃ count, m.current.Spans count ∧ memorySize < m.index + count ∧
        e = .outOfBounds m.index count := by
  cases hw : Instruction.ofWord? m.current with
  | none =>
    have hfits := Instruction.ofWord?_eq_none_iff.1 hw
    have hspans : ∀ count, ¬ m.current.Spans count := by
      rintro count (⟨h, -⟩ | ⟨h, -⟩ | ⟨h | h, -⟩) <;>
        exact hfits _ (by simp [Instruction.patterns]) h
    have hcall : ¬ m.current.fits "2nnn" := hfits _ (by simp [Instruction.patterns])
    have hret : ¬ m.current.fits "00EE" := hfits _ (by simp [Instruction.patterns])
    have hmissing : m.instruction = .error (.invalidWord m.current) := by
      rw [instruction_of_lt hlt, decode, hw]
    rw [failure?_of_error ha hmissing]
    simp only [Option.some.injEq, eq_comm (a := StepError.invalidWord _), hspans, hcall, hret,
      Bool.false_eq_true, false_and, exists_false, or_false]
    exact ⟨fun h => ⟨hfits, h⟩, And.right⟩
  | some i =>
    -- the word fits the pattern of its instruction
    have hsome : ¬ ∀ p ∈ Instruction.patterns, ¬ m.current.fits p := by
      rw [← Instruction.ofWord?_eq_none_iff, hw]
      exact Option.some_ne_none i
    rw [failure?_of_ok ha (instruction_eq_ok.2 ⟨hlt, hw⟩), obstacle?_eq_some,
      Instruction.fits_call_iff hw, Instruction.fits_ret_iff hw]
    simp only [hsome, false_and, false_or, Instruction.spans_iff hw]
    rfl

theorem next_succeeds_iff (hm : m.Valid) (ha : m.activity = .running)
    (hlt : m.counter + 1 < memorySize) :
    (∃ hint, m.next.result = .ok hint) ↔
      (∃ p ∈ Instruction.patterns, m.current.fits p) ∧
      ¬ (m.current.fits "2nnn" ∧ m.stack.length = stackLimit) ∧
      ¬ (m.current.fits "00EE" ∧ m.stack = []) ∧
      ∀ count, m.current.Spans count → m.index + count ≤ memorySize := by
  rw [next_result_eq_ok hm]
  simp only [ne_eq, failure?_eq_some ha hlt]
  constructor
  · intro h
    refine ⟨?_, fun ⟨hcall, hfull⟩ => ?_, fun ⟨hret, hnil⟩ => ?_, fun count hspans => ?_⟩
    · refine Classical.byContradiction fun hno => h _ (.inl ⟨fun p hp hfits => ?_, rfl⟩)
      exact hno ⟨p, hp, hfits⟩
    · exact h _ (.inr (.inl ⟨hcall, hfull, rfl⟩))
    · exact h _ (.inr (.inr (.inl ⟨hret, hnil, rfl⟩)))
    · exact Nat.not_lt.1 fun hover => h _ (.inr (.inr (.inr ⟨count, hspans, hover, rfl⟩)))
  · rintro ⟨⟨p, hp, hfits⟩, hcall, hret, hspan⟩ e
    rintro (⟨hno, -⟩ | ⟨h, hfull, -⟩ | ⟨h, hnil, -⟩ | ⟨count, hspans, hover, -⟩)
    · exact hno p hp hfits
    · exact hcall ⟨h, hfull⟩
    · exact hret ⟨h, hnil⟩
    · exact Nat.not_le.2 hover (hspan count hspans)

/-- A sprite without rows accesses no memory. -/
theorem next_succeeds_of_no_rows (hm : m.Valid) (ha : m.activity = .running)
    (hlt : m.counter + 1 < memorySize) (hw : m.current.fits "Dxyn") (hn : m.current.n = 0) :
    ∃ hint, m.next.result = .ok hint := by
  have hdraw : "Dxyn" ∈ Instruction.patterns := by simp [Instruction.patterns]
  have hother : ∀ q ∈ Instruction.patterns, q ≠ "0nnn" → q ≠ "Dxyn" → ¬ m.current.fits q :=
    fun q hq hq' hne h =>
      hne (Instruction.pattern_unique hdraw hq (by simp) hq' hw h).symm
  refine (next_succeeds_iff hm ha hlt).2 ⟨⟨_, hdraw, hw⟩, fun h => ?_, fun h => ?_, ?_⟩
  · exact hother "2nnn" (by simp [Instruction.patterns]) (by simp) (by simp) h.1
  · exact hother "00EE" (by simp [Instruction.patterns]) (by simp) (by simp) h.1
  · rintro count (⟨-, rfl⟩ | ⟨h, -⟩ | ⟨h | h, -⟩)
    · rw [hn]
      exact Nat.le_of_lt hm.index
    · exact absurd h (hother "Fx33" (by simp [Instruction.patterns]) (by simp) (by simp))
    · exact absurd h (hother "Fx55" (by simp [Instruction.patterns]) (by simp) (by simp))
    · exact absurd h (hother "Fx65" (by simp [Instruction.patterns]) (by simp) (by simp))

/-- **Steps fail exactly when they must.** A step that looks for a key succeeds. A step of a running
machine fails for want of a word only at the last address. Elsewhere its outcome depends on the word
`w` of the two bytes at the program counter: it fails with an unknown word when `w` fits no pattern,
with a full stack on a call with sixteen entries, with an empty stack on a return without an entry,
with an access out of bounds when the bytes from the index register on leave memory, and succeeds in
all other cases. In particular a sprite without rows is always drawn. -/
theorem next_fails_iff (hm : m.Reachable) :
    (∀ r, m.activity = .awaitingKey r → ∃ hint, m.next.result = .ok hint) ∧
    (m.activity = .running →
      (m.next.result = .error (.noWord 4095 4096) ↔ m.counter = 4095) ∧
      (m.counter ≠ 4095 → ∃ w high low,
        m.memory.get? m.counter = some high ∧ m.memory.get? (m.counter + 1) = some low ∧
        w.toNat = high.toNat * 256 + low.toNat ∧
        (m.next.result = .error (.invalidWord w) ↔ ∀ p ∈ Instruction.patterns, ¬ w.fits p) ∧
        (m.next.result = .error .stackFull ↔ w.fits "2nnn" ∧ m.stack.length = 16) ∧
        (m.next.result = .error .stackEmpty ↔ w.fits "00EE" ∧ m.stack = []) ∧
        (∀ start count, m.next.result = .error (.outOfBounds start count) ↔
          start = m.index ∧ w.Spans count ∧ 4096 < m.index + count) ∧
        ((∃ hint, m.next.result = .ok hint) ↔
          (∃ p ∈ Instruction.patterns, w.fits p) ∧ ¬ (w.fits "2nnn" ∧ m.stack.length = 16) ∧
          ¬ (w.fits "00EE" ∧ m.stack = []) ∧ ∀ count, w.Spans count → m.index + count ≤ 4096) ∧
        (w.fits "Dxyn" → w.n = 0 → ∃ hint, m.next.result = .ok hint))) := by
  have hv := hm.valid
  constructor
  · intro r ha
    rw [next_awaiting ha]
    exact poll_succeeds (hv.awaited r ha)
  intro ha
  by_cases hc : m.counter = 4095
  -- the last address has a high byte and no low byte
  · have hmissing : m.instruction = .error (.noWord 4095 4096) := by
      rw [instruction_of_le (Nat.le_of_eq (by rw [hc]; rfl)), hc]
      rfl
    refine ⟨iff_of_true ?_ hc, fun h => absurd hc h⟩
    rw [next_result_eq_error hv, failure?_of_error ha hmissing]
  -- elsewhere the invariant leaves room for both bytes
  · have hlt : m.counter + 1 < memorySize := by
      have := hv.counter
      simp only [memorySize] at *
      omega
    have hfails := fun e => (next_result_eq_error hv (e := e)).trans (failure?_eq_some ha hlt)
    have hhigh := Bank.get?_eq_some (b := m.memory) (Nat.lt_of_succ_lt hlt)
    have hlow := Bank.get?_eq_some (b := m.memory) hlt
    refine ⟨iff_of_false ?_ hc, fun _ => ⟨m.current, _, _, hhigh, hlow, Word.toNat_ofBytes ..,
      ?_, ?_, ?_, ?_, next_succeeds_iff hv ha hlt, next_succeeds_of_no_rows hv ha hlt⟩⟩
    · simp [hfails]
    · simp [hfails]
    · simp [hfails, stackLimit]
    · simp [hfails]
    · intro start count
      rw [hfails]
      constructor
      · rintro (⟨-, ⟨⟩⟩ | ⟨-, -, ⟨⟩⟩ | ⟨-, -, ⟨⟩⟩ | ⟨count, hspans, hover, ⟨⟩⟩)
        exact ⟨rfl, hspans, hover⟩
      · rintro ⟨rfl, hspans, hover⟩
        exact .inr (.inr (.inr ⟨count, hspans, hover, rfl⟩))

/-- A program that returns from nowhere. -/
theorem next_fails_iff_return :
    ∃ m : Machine, m.Reachable ∧ m.activity = .running ∧ m.counter ≠ 4095 ∧
      m.next.result = .error .stackEmpty := by
  obtain ⟨start, hstart, hrun, hcounter, hstack, hbytes⟩ :=
    exists_started ⟨"return", [0x00, 0xEE]⟩ (by decide)
  have hne : start.counter ≠ 4095 := by
    rw [hcounter]
    decide
  obtain ⟨w, high, low, hhigh, hlow, hw, -, -, hempty, -⟩ := ((next_fails_iff hstart).2 hrun).2 hne
  rw [hcounter] at hhigh hlow
  have hcell : ∀ i < 2, start.memory.get? (programStart + i) = some ([0x00, 0xEE][i]?.getD 0) := by
    intro i hi
    have hlt : programStart + i < memorySize := Nat.lt_trans (Nat.add_lt_add_left hi _) (by decide)
    rw [Bank.get?_eq_some hlt, hbytes i (Nat.lt_trans hi (by decide))]
  have h0 : high = 0x00 := Option.some.inj (hhigh.symm.trans (hcell 0 (by decide)))
  have h1 : low = 0xEE := Option.some.inj (hlow.symm.trans (hcell 1 (by decide)))
  have hret : w = 0x00EE := by
    rw [h0, h1] at hw
    exact UInt16.toNat_inj.1 hw
  refine ⟨start, hstart, hrun, hne, hempty.2 ⟨?_, hstack⟩⟩
  rw [hret]
  decide

end Machine

end SpriteVM
