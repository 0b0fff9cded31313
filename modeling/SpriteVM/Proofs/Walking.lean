import SpriteVM.Proofs.Answering
import SpriteVM.Proofs.Listing
import SpriteVM.Proofs.Reading

/-!
# Walks

A walk shows each step before it is taken. What is shown is put together from the memory as a
listing does it, while the step fetches and decodes on its own. `Machine.Previews` says of some lines
that they announce the very step that comes next: the word in the line is the word that this step
fetches, and the text behind it is the instruction that this step performs, or the wording for a
word without instruction, just when the step fails for this word.

`Machine.Walks` describes a walk by its steps alone, up to the first one that fails. From a machine
there is one walk of a length, the one that is taken (`walks_iff`), and two walks in a row are a longer
one (`walk_add`).
-/

namespace SpriteVM

open Numeral

namespace Machine

/-- The lines are what a machine shows of its next step. -/
structure Previews (m : Machine) (shown : List String) : Prop where
  /-- that a key is awaited, and for which register -/
  awaiting : ∀ r, m.activity = .awaitingKey r → shown = ["Awaiting key for " ++ registerName r]
  /-- the instruction at the program counter, which the step fetches and performs -/
  running : m.activity = .running → m.counter < 4095 → ∃ w text,
    shown = [addressText m.counter ++ " " ++ addressText w.toNat ++ " " ++ text ++ " <<<"] ∧
    fetch m.memory.cells.toArray m.counter = .ok w ∧ m.next.machine.word = w ∧
    (text = "*** Unknown instruction" ↔ m.next.result = .error (.invalidWord w)) ∧
    (text ≠ "*** Unknown instruction" → ∃ i, decode w = .ok i ∧ text = i.mnemonic ∧
      m.next =
        let turn := Work.perform i { m with word := w, counter := (m.counter + 2) % 4096 }
        { turn with log := .executing m.counter w i :: turn.log })
  /-- nothing at the last address, where the step fails -/
  last : m.activity = .running → m.counter = 4095 →
    shown = [] ∧ m.next = { machine := m, result := .error (.noWord 4095 4096) }

/-- Up to so many steps from a machine show these lines and lead to that machine. -/
inductive Walks : Machine → Nat → List String → Machine → Prop where
  /-- no step is left to take -/
  | rests (m : Machine) : Walks m 0 [] m
  /-- a step fails and is the last one; its error is the last line -/
  | fails {m : Machine} {count : Nat} {shown : List String} {e : StepError}
      (hshown : m.Previews shown) (he : m.next.result = .error e) :
      Walks m (count + 1) (shown ++ [e.message]) m.next.machine
  /-- a step succeeds, and the walk goes on from there -/
  | goesOn {m m' : Machine} {count : Nat} {shown lines : List String} {hint : Hint}
      (hshown : m.Previews shown) (hok : m.next.result = .ok hint)
      (hrest : Walks m.next.machine count lines m') :
      Walks m (count + 1) (shown ++ lines) m'

variable {m : Machine}

/-! ## What is shown before a step -/

/-- An instruction is never shown as a word without one. -/
theorem mnemonic_ne_unknown (i : Instruction) : i.mnemonic ≠ "*** Unknown instruction" := by
  intro h
  have hspelled := i.spelled_mnemonic '*' (by rw [h]; decide)
  revert hspelled
  decide

/-- The line that a machine shows before it executes something. -/
theorem preview_running (ha : m.activity = .running) (hlt : m.counter + 1 < memorySize) :
    m.preview = [(m.memory.entry m.counter).text ++ " <<<"] := by
  rw [preview, ha]
  show List.map m.markedEntry (Memory.listing m.memory m.counter 1) = _
  rw [Memory.listing_of_lt hlt]
  exact congrArg ([(m.memory.entry m.counter).text ++ ·]) (if_pos rfl)

theorem preview_of_cells {a : Nat} {high low : UInt8} (ha : m.activity = .running)
    (hc : m.counter = a) (hlt : a + 1 < memorySize) (hhigh : m.memory.cell a = high)
    (hlow : m.memory.cell (a + 1) = low) :
    m.preview =
      [(ListingEntry.mk a (Word.ofBytes high low)
        (Instruction.ofWord? (Word.ofBytes high low))).text ++ " <<<"] := by
  subst hc hhigh hlow
  exact preview_running ha hlt

/-- A word that decodes does not fail to decode. -/
theorem next_result_ne_invalidWord {i : Instruction} {v : Word} (hm : m.Valid)
    (ha : m.activity = .running) (hi : m.instruction = .ok i) :
    m.next.result ≠ .error (.invalidWord v) := by
  intro he
  rw [next_result_eq_error hm, failure?_of_ok ha hi] at he
  exact not_stalls_of_obstacle? he trivial

theorem previews_preview (hm : m.Valid) : m.Previews m.preview where
  awaiting := by
    intro r ha
    rw [preview, ha]
    rfl
  running := by
    intro ha hc
    have hlt : m.counter + 1 < memorySize := Nat.succ_lt_succ hc
    refine ⟨m.current, (m.memory.entry m.counter).mnemonic, preview_running ha hlt, fetch_of_lt hlt,
      next_word hm ha hlt, ?_⟩
    cases hw : Instruction.ofWord? m.current with
    | none =>
      have htext := ListingEntry.mnemonic_of_none (e := m.memory.entry m.counter) hw
      have hresult : m.next.result = .error (.invalidWord m.current) := by
        rw [next_running ha, Work.cycle_of_invalidWord hlt hw]
      exact ⟨iff_of_true htext hresult, fun hne => absurd htext hne⟩
    | some i =>
      have htext := ListingEntry.mnemonic_of_some (e := m.memory.entry m.counter) hw
      have hi : m.instruction = .ok i := instruction_eq_ok.2 ⟨hlt, hw⟩
      rw [htext]
      refine ⟨iff_of_false (mnemonic_ne_unknown i) (next_result_ne_invalidWord hm ha hi),
        fun _ => ⟨i, decode_eq_ok.2 hw, rfl, ?_⟩⟩
      rw [next_running ha, Work.cycle_of_ok hi]
      rfl
  last := by
    intro ha hc
    have hle : memorySize ≤ m.counter + 1 := by
      rw [hc]
      decide
    constructor
    · rw [preview, ha]
      exact congrArg (List.map m.markedEntry) (Memory.listing_of_le hle)
    · rw [next_running ha, Work.cycle_of_noWord hle, hc]
      rfl

/-- There is one way only to announce a step. -/
theorem Previews.eq_preview {shown : List String} (hm : m.Valid) (h : m.Previews shown) :
    shown = m.preview := by
  have hpreview := previews_preview hm
  cases ha : m.activity with
  | awaitingKey r => rw [h.awaiting r ha, hpreview.awaiting r ha]
  | running =>
    rcases Nat.lt_or_eq_of_le (Nat.le_of_lt_succ hm.counter) with hlt | hlast
    · obtain ⟨w, text, hshown, hw, -, hunknown, htext⟩ := h.running ha hlt
      obtain ⟨v, text', hshown', hv, -, hunknown', htext'⟩ := hpreview.running ha hlt
      obtain rfl := Except.ok.inj (hw.symm.trans hv)
      have hsame : text = text' := by
        by_cases hne : text = "*** Unknown instruction"
        · rw [hne, hunknown'.2 (hunknown.1 hne)]
        · obtain ⟨i, hi, rfl, -⟩ := htext hne
          obtain ⟨j, hj, rfl, -⟩ := htext' fun hne' => hne (hunknown.2 (hunknown'.1 hne'))
          rw [Except.ok.inj (hi.symm.trans hj)]
      rw [hshown, hshown', hsame]
    · rw [(h.last ha hlast).1, (hpreview.last ha hlast).1]

/-! ## Walks -/

theorem walk_of_error {count : Nat} {e : StepError} (he : m.next.result = .error e) :
    m.walk (count + 1) =
      { machine := m.next.machine, lines := m.preview ++ [e.message], log := m.next.log } := by
  rw [walk]
  simp only [he]

theorem walk_of_ok {count : Nat} {hint : Hint} (hok : m.next.result = .ok hint) :
    m.walk (count + 1) =
      { machine := (m.next.machine.walk count).machine
        lines := m.preview ++ (m.next.machine.walk count).lines
        log := m.next.log ++ (m.next.machine.walk count).log } := by
  rw [walk]
  simp only [hok]

theorem walks_walk (hm : m.Valid) (count : Nat) :
    m.Walks count (m.walk count).lines (m.walk count).machine := by
  induction count generalizing m with
  | zero => exact .rests m
  | succ count ih =>
    cases h : m.next.result with
    | error e =>
      rw [walk_of_error h]
      exact .fails (previews_preview hm) h
    | ok hint =>
      rw [walk_of_ok h]
      exact .goesOn (previews_preview hm) h (ih (next_keeps hm).valid)

theorem Walks.eq_walk {m' : Machine} {count : Nat} {lines : List String}
    (h : m.Walks count lines m') (hm : m.Valid) :
    lines = (m.walk count).lines ∧ m' = (m.walk count).machine := by
  induction h with
  | rests m => exact ⟨rfl, rfl⟩
  | fails hshown he =>
    rw [walk_of_error he, hshown.eq_preview hm]
    exact ⟨rfl, rfl⟩
  | goesOn hshown hok _ ih =>
    obtain ⟨hlines, hmachine⟩ := ih (next_keeps hm).valid
    rw [walk_of_ok hok, hshown.eq_preview hm, hlines, hmachine]
    exact ⟨rfl, rfl⟩

/-- A walk is known by its steps. -/
theorem walks_iff {m' : Machine} {count : Nat} {lines : List String} (hm : m.Valid) :
    m.Walks count lines m' ↔ lines = (m.walk count).lines ∧ m' = (m.walk count).machine := by
  constructor
  · exact fun h => h.eq_walk hm
  · rintro ⟨rfl, rfl⟩
    exact walks_walk hm count

/-- A walk goes on where another one ended that no step made fail. -/
theorem walk_add {a : Nat}
    (h : ∀ j < a, ∃ hint, (m.run (List.replicate j .next)).next.result = .ok hint) (b : Nat) :
    m.walk (a + b) =
      let first := m.walk a
      let second := first.machine.walk b
      { machine := second.machine
        lines := first.lines ++ second.lines
        log := first.log ++ second.log } := by
  induction a generalizing m with
  | zero =>
    rw [Nat.zero_add]
    rfl
  | succ a ih =>
    obtain ⟨hint, hok⟩ : ∃ hint, m.next.result = .ok hint := h 0 (Nat.succ_pos a)
    have hrest := ih (m := m.next.machine) fun j hj => h (j + 1) (Nat.succ_lt_succ hj)
    rw [Nat.succ_add, walk_of_ok hok, walk_of_ok hok, hrest]
    simp only [List.append_assoc]

/-- **A walk shows what it does.** The steps of a walk are taken one after the other until one fails.
Each of them, the failing one included, is announced by what is shown before it, with the word that it
fetches and the instruction that it performs, whatever the steps before it did to memory; the error is
the last line. After a walk without failure another walk goes on as if both were one. -/
theorem walk_shows_steps (hm : m.Reachable) :
    (∀ count lines m', m.Walks count lines m' ↔
      lines = ((Command.step count).respond m).lines ∧
        m' = ((Command.step count).respond m).machine) ∧
    ∀ a b, (∀ j < a, ∃ hint, (m.run (List.replicate j .next)).next.result = .ok hint) →
      (Command.step (a + b)).respond m =
        let first := (Command.step a).respond m
        let second := (Command.step b).respond first.machine
        { machine := second.machine
          lines := first.lines ++ second.lines
          log := first.log ++ second.log } :=
  ⟨fun _ _ _ => walks_iff hm.valid, fun _ b h => walk_add h b⟩

/-- A step that stores a zero into the instruction behind it, a skip on a key. -/
theorem exists_spoiling :
    ∃ m : Machine, m.Reachable ∧ m.memory.cell 0x202 = 0xE0 ∧ m.memory.cell 0x203 = 0x9E ∧
      m.preview = ["0x0200 0xF055 LD [I], V0 <<<"] ∧ m.next.result = .ok .idle ∧
      m.next.machine.preview = ["0x0202 0xE000 *** Unknown instruction <<<"] ∧
      m.next.machine.next.result = .error (.invalidWord 0xE000) := by
  obtain ⟨m, hm, ha, hcounter, hindex, hregisters, hbytes⟩ :
      ∃ m : Machine, m.Reachable ∧ m.activity = .running ∧ m.counter = 0x200 ∧ m.index = 0x203 ∧
        m.registers = Bank.zero ∧
        ∀ i < programLimit,
          m.memory.cell (programStart + i) = [0xF0, 0x55, 0xE0, 0x9E][i]?.getD 0 := by
    let start := (blank .standard .released (.cycle #[])).loaded
      ⟨"spoiled", [0xF0, 0x55, 0xE0, 0x9E]⟩
    have hstart : start.Reachable := .boot (boot_eq_ok.2 ⟨by decide, rfl⟩)
    have hbytes : ∀ i < programLimit,
        start.memory.cell (programStart + i) = [0xF0, 0x55, 0xE0, 0x9E][i]?.getD 0 :=
      fun _ hi => cell_loaded hi
    exact ⟨_, hstart.act (a := .perform (.loadIndex 0x203)) ⟨0xA203, by decide⟩, rfl, rfl, rfl, rfl,
      hbytes⟩
  have hstore : m.instruction = .ok (.storeRegisters 0) :=
    instruction_of_cells hcounter (by decide) (hbytes 0 (by decide)) (hbytes 1 (by decide))
  have hfits : m.fetched.index + (0 + 1) ≤ memorySize := by
    show m.index + 1 ≤ memorySize
    rw [hindex]
    decide
  have hnext := next_of_execute ha hstore (Work.execute_storeRegisters (by decide) hfits) (wrap_lt _)
  have ha' : m.next.machine.activity = .running := by
    rw [hnext]
    exact ha
  have hcounter' : m.next.machine.counter = 0x202 := by
    rw [hnext]
    show wrap (wrap (m.counter + 2)) = 0x202
    rw [hcounter]
    rfl
  have hhigh : m.next.machine.memory.cell 0x202 = 0xE0 := by
    rw [hnext]
    refine (Bank.cell_fill_of_outside (.inl ?_)).trans (hbytes 2 (by decide))
    show 0x202 < m.index
    rw [hindex]
    decide
  have hlow : m.next.machine.memory.cell 0x203 = 0 := by
    rw [hnext]
    show (m.memory.fill m.index (m.registers.block 0 1)).cell 0x203 = 0
    rw [hindex, hregisters, Bank.cell, Bank.get?_fill]
    rfl
  refine ⟨m, hm, hbytes 2 (by decide), hbytes 3 (by decide), ?_, by rw [hnext], ?_, ?_⟩
  · have hshown := preview_of_cells ha hcounter (by decide) (hbytes 0 (by decide))
      (hbytes 1 (by decide))
    exact hshown.trans (by decide)
  · exact (preview_of_cells ha' hcounter' (by decide) hhigh hlow).trans (by decide)
  · exact Stuck.next_result ⟨ha', instruction_of_cells hcounter' (by decide) hhigh hlow⟩

/-- What was a skip on a key is shown as the word that it has become, and fails as such. -/
theorem walk_shows_steps_spoiled :
    ∃ m : Machine, m.Reachable ∧ m.memory.cell 0x202 = 0xE0 ∧ m.memory.cell 0x203 = 0x9E ∧
      ((Command.step 2).respond m).lines =
        ["0x0200 0xF055 LD [I], V0 <<<", "0x0202 0xE000 *** Unknown instruction <<<",
          "Invalid opcode state 'An unsupported opcode was used 0xE000.'."] ∧
      ((Command.step (1 + 1)).respond m).lines =
        ((Command.step 1).respond m).lines ++
          ((Command.step 1).respond ((Command.step 1).respond m).machine).lines := by
  obtain ⟨m, hm, hhigh, hlow, hpreview, hok, hpreview', hresult⟩ := exists_spoiling
  have hwalk : m.Walks 2 (m.preview ++ (m.next.machine.preview ++
      [(StepError.invalidWord 0xE000).message])) m.next.machine.next.machine :=
    .goesOn (previews_preview hm.valid) hok
      (.fails (previews_preview (next_keeps hm.valid).valid) hresult)
  have hlines := (((walk_shows_steps hm).1 2 _ _).1 hwalk).1
  rw [hpreview, hpreview'] at hlines
  refine ⟨m, hm, hhigh, hlow, hlines.symm.trans (by decide), ?_⟩
  refine congrArg Response.lines ((walk_shows_steps hm).2 1 1 fun j hj => ?_)
  obtain rfl := Nat.lt_one_iff.1 hj
  exact ⟨_, hok⟩

end Machine

end SpriteVM
