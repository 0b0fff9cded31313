import SpriteVM.Machine.Action
import SpriteVM.Proofs.Step

/-!
# Reachable machines

The machines that a host can bring about: `Machine.boot` gives the first one, and every allowed
action the next. The invariant `Machine.Valid` holds of a booted machine and is kept by every
allowed action (`act_keeps`), hence it holds along every run. From a valid machine no allowed action
asks for something that does not exist (`act_admits`). `boot_run_sound` puts the two together.
-/

namespace SpriteVM

open Numeral

/-! ## Allowed actions and their answers -/

/-- An action that a host may take: the whole keyboard is only overwritten with sixteen states, and
an instruction that was not fetched is one that some word means. -/
def Action.Allowed : Action → Prop
  | .edit e => e.accepted
  | .perform i | .execute i => ∃ w, Instruction.ofWord? w = some i
  | _ => True

/-- An action of a session under way: a step, a tick or an allowed change of the keyboard. -/
def Action.InPlay : Action → Prop
  | .next | .tick => True
  | .edit e => e.accepted
  | _ => False

theorem Action.InPlay.allowed {a : Action} (h : a.InPlay) : a.Allowed := by
  cases a with
  | edit e => exact h
  | next | tick => trivial
  | load | follow | perform | execute => cases h

/-- An action of a session under way, a refused change of the keyboard included. -/
def Action.Underway : Action → Prop
  | .next | .tick | .edit _ => True
  | _ => False

/-- An action of a host that leaves it to the program what is executed: besides the actions of a
session under way, a new session may begin. -/
def Action.HandsOff : Action → Prop
  | .next | .tick | .edit _ | .load _ => True
  | _ => False

theorem Action.Underway.handsOff {a : Action} (h : a.Underway) : a.HandsOff := by
  cases a with
  | next | tick | edit => trivial
  | load | follow | perform | execute => cases h

/-- The answers that an action may give: it succeeds in its own way, or fails with an error that a
program can bring about, or a ROM is too large. -/
def Action.Admits : Action → Answer → Prop
  | .next, .stepped _ | .perform _, .stepped _ | .execute _, .applied _ _ => True
  | .next, .failed e | .perform _, .failed e | .execute _, .failed e => e.Typed
  | .load _, .done | .load _, .tooLarge _ => True
  | .tick, .done | .edit _, .done | .follow _, .done => True
  | _, _ => False

namespace Machine

/-- A machine that a host can bring about. -/
inductive Reachable : Machine → Prop where
  /-- the machine at the start of a session -/
  | boot {rom : Rom} {display : Display} {keyboard : Keyboard} {random : ByteSource} {m : Machine}
      (h : boot rom display keyboard random = .ok m) : Reachable m
  /-- the machine after an allowed action -/
  | act {m : Machine} {a : Action} (hm : Reachable m) (ha : a.Allowed) : Reachable (m.act a).machine

variable {m : Machine}

/-! ## Loading -/

/-- A program that is short enough stays in memory. -/
theorem programStart_add_le {n : Nat} (h : n ≤ programLimit) : programStart + n ≤ memorySize :=
  Nat.le_trans (Nat.add_le_add_left h _) (by decide)

/-- The machine with a cleared program area and the bytes of a program in it. -/
def install (m : Machine) (data : List UInt8) : Machine :=
  let cleared := m.memory.fill programStart (List.replicate programLimit 0)
  { m with memory := cleared.fill programStart data }

theorem install_apply {data : List UInt8} (h : data.length ≤ programLimit) :
    Work.install data m = { machine := m.install data, result := .ok () } := by
  rw [Work.install,
    Work.writeBlock_eq_change List.length_replicate (programStart_add_le (Nat.le_refl _)),
    Work.writeBlock_eq_change rfl (programStart_add_le h), Work.change_bind_apply,
    Work.change_apply, install]

/-- The machine at the start of a session with a ROM. -/
def loaded (m : Machine) (rom : Rom) : Machine :=
  reset { m.install rom.data with name := rom.name }

theorem load_of_lt {rom : Rom} (h : programLimit < rom.size) :
    Work.load rom m =
      { machine := m, result := .error (.tooLarge ⟨rom.size, programLimit⟩) } := by
  simp only [Work.load, if_pos h, Work.fail_bind, Work.fail_apply]

theorem load_of_le {rom : Rom} (h : rom.size ≤ programLimit) :
    Work.load rom m =
      { machine := m.loaded rom, result := .ok (), log := [.romLoaded rom.name rom.size] } := by
  simp only [Work.load, if_neg (Nat.not_lt.2 h)]
  rw [Work.bind_of_apply (install_apply h)]
  rfl

/-- A ROM is refused, or a new session begins. -/
theorem act_load_cases (m : Machine) (rom : Rom) :
    (m.act (.load rom)).machine = m ∨ (m.act (.load rom)).machine = m.loaded rom := by
  rw [act]
  by_cases h : rom.size ≤ programLimit
  · exact .inr (by rw [load_of_le h]; rfl)
  · exact .inl (by rw [load_of_lt (Nat.not_le.1 h)]; rfl)

theorem loaded_keeps (m : Machine) (rom : Rom) : m.Keeps (m.loaded rom) := by
  have hcounter : programStart < memorySize := by decide
  have hindex : 0 < memorySize := by decide
  refine ⟨⟨hcounter, hindex, Nat.zero_le _, ?_, ?_⟩, rfl, rfl⟩
  · intro a ha
    cases ha
  · intro r hr
    cases hr

/-- The program area has the bytes of the ROM and then zeros. -/
theorem cell_loaded {rom : Rom} {i : Nat} (hi : i < programLimit) :
    (m.loaded rom).memory.cell (programStart + i) = rom.data[i]?.getD 0 := by
  have hplace : programStart + i < memorySize := by
    simp only [programLimit, programStart, memorySize] at *
    omega
  show (((m.memory.fill programStart (List.replicate programLimit 0)).fill programStart
    rom.data).get? (programStart + i)).getD 0 = _
  simp only [Bank.get?_fill, Nat.le_add_right, Nat.add_lt_add_iff_left, hplace, and_true, true_and,
    Nat.add_sub_cancel_left, List.length_replicate, hi, if_true]
  by_cases hd : i < rom.data.length
  · rw [if_pos hd]
  -- behind the ROM the cleared area shows
  · rw [if_neg hd, List.getElem?_replicate_of_lt hi, List.getElem?_eq_none (Nat.not_lt.1 hd)]
    rfl

/-- Loading keeps what lies below the program area. -/
theorem cell_loaded_of_lt {rom : Rom} {a : Nat} (ha : a < programStart) :
    (m.loaded rom).memory.cell a = m.memory.cell a :=
  (Bank.cell_fill_of_outside (.inl ha)).trans (Bank.cell_fill_of_outside (.inl ha))

theorem boot_eq_ok {rom : Rom} {display : Display} {keyboard : Keyboard} {random : ByteSource} :
    Machine.boot rom display keyboard random = .ok m ↔
      rom.size ≤ programLimit ∧ m = (blank display keyboard random).loaded rom := by
  unfold Machine.boot
  by_cases h : rom.size ≤ programLimit
  · simp [load_of_le h, h, Except.map, eq_comm]
  · simp [load_of_lt (Nat.not_le.1 h), h, Except.map]

/-- Every ROM that fits can be booted with every display, keyboard and random source. -/
theorem exists_booted (rom : Rom) (h : rom.size ≤ programLimit) (display : Display)
    (keyboard : Keyboard) (random : ByteSource) :
    ∃ m : Machine, m.Reachable ∧ m.activity = .running ∧ m.counter = programStart ∧ m.stack = [] ∧
      m.display = display ∧ m.keyboard = keyboard ∧ m.random = random ∧
      ∀ i < programLimit, m.memory.cell (programStart + i) = rom.data[i]?.getD 0 :=
  ⟨(blank display keyboard random).loaded rom, .boot (boot_eq_ok.2 ⟨h, rfl⟩), rfl, rfl, rfl, rfl,
    rfl, rfl, fun _ hi => cell_loaded hi⟩

/-- Every ROM that fits can be started. -/
theorem exists_started (rom : Rom) (h : rom.size ≤ programLimit) :
    ∃ m : Machine, m.Reachable ∧ m.activity = .running ∧ m.counter = programStart ∧ m.stack = [] ∧
      ∀ i < programLimit, m.memory.cell (programStart + i) = rom.data[i]?.getD 0 := by
  obtain ⟨m, hm, hrun, hcounter, hstack, -, -, -, hbytes⟩ :=
    exists_booted rom h .standard .released (.cycle #[])
  exact ⟨m, hm, hrun, hcounter, hstack, hbytes⟩

/-- The instruction at a place of a program that is still in memory. -/
theorem instruction_of_data {m' : Machine} {data : List UInt8} {k : Nat}
    (hbytes : ∀ i < programLimit, m.memory.cell (programStart + i) = data[i]?.getD 0)
    (hmemory : m'.memory = m.memory) (hc : m'.counter = programStart + k)
    (hk : k + 1 < programLimit) :
    m'.instruction = decode (Word.ofBytes (data[k]?.getD 0) (data[k + 1]?.getD 0)) := by
  have hplace : programStart + k + 1 < memorySize := by
    simp only [programLimit, programStart, memorySize] at *
    omega
  rw [← hbytes k (Nat.lt_of_succ_lt hk), ← hbytes (k + 1) hk, ← hmemory]
  exact instruction_of_cells hc hplace rfl rfl

/-! ## Steps -/

theorem execute_keeps {i : Instruction} (hm : m.Valid) (hi : i.InRange) :
    m.Keeps (Work.execute i m).machine := by
  cases h : m.obstacle? i with
  | some e =>
    rw [Work.execute_of_obstacle hm hi h]
    exact hm.keeps
  | none =>
    obtain ⟨m', effect, log, hx, hs⟩ := Work.execute_of_no_obstacle hm hi h
    rw [hx]
    exact hs.toKeeps

theorem perform_keeps {i : Instruction} (hm : m.Valid) (hi : i.InRange) :
    m.Keeps (Work.perform i m).machine := by
  cases h : m.obstacle? i with
  | some e =>
    rw [Work.perform_of_obstacle hm hi h]
    exact hm.keeps
  | none =>
    obtain ⟨m', effect, log, -, hs, hp⟩ := Work.perform_of_no_obstacle hm hi h
    rw [hp]
    exact ⟨hs.valid.setCounter (Work.target_lt _ _), hs.width, hs.height⟩

theorem perform_typed {i : Instruction} {e : StepError} (hm : m.Valid) (hi : i.InRange)
    (he : (Work.perform i m).result = .error e) : e.Typed := by
  cases h : m.obstacle? i with
  | some e' =>
    rw [Work.perform_of_obstacle hm hi h] at he
    obtain rfl := Except.error.inj he
    exact typed_of_obstacle? h
  | none =>
    obtain ⟨m', effect, log, -, -, hp⟩ := Work.perform_of_no_obstacle hm hi h
    rw [hp] at he
    cases he

theorem poll_keeps {r : Nat} (hm : m.Valid) (hr : r < 16) : m.Keeps (Work.poll r m).machine := by
  cases h : m.keyboard.lowest? with
  | none =>
    rw [Work.poll_of_none h]
    exact hm.keeps
  | some key =>
    rw [Work.poll_of_some hr h]
    exact ⟨⟨hm.counter, hm.index, hm.depth, hm.stack, fun _ h => by cases h⟩, rfl, rfl⟩

theorem poll_succeeds {r : Nat} (hr : r < 16) : ∃ hint, (Work.poll r m).result = .ok hint := by
  cases h : m.keyboard.lowest? with
  | none => exact ⟨.wait, by rw [Work.poll_of_none h]⟩
  | some key => exact ⟨.idle, by rw [Work.poll_of_some hr h]⟩

theorem next_running (h : m.activity = .running) : m.next = Work.cycle m := by
  rw [next, h]

theorem next_awaiting {r : Nat} (h : m.activity = .awaitingKey r) : m.next = Work.poll r m := by
  rw [next, h]

/-- An instruction that a machine is about to execute has operands in range. -/
theorem inRange_of_instruction {i : Instruction} (h : m.instruction = .ok i) : i.InRange :=
  Instruction.inRange_of_ofWord? (instruction_eq_ok.1 h).2

theorem next_keeps (hm : m.Valid) : m.Keeps m.next.machine := by
  cases ha : m.activity with
  | awaitingKey r =>
    rw [next_awaiting ha]
    exact poll_keeps hm (hm.awaited r ha)
  | running =>
    rw [next_running ha]
    cases h : m.instruction with
    | error e =>
      obtain ⟨word, hw⟩ := Work.cycle_of_error h
      rw [hw]
      exact ⟨⟨hm.counter, hm.index, hm.depth, hm.stack, hm.awaited⟩, rfl, rfl⟩
    | ok i =>
      have hfetched : m.Keeps m.fetched := ⟨hm.fetched, rfl, rfl⟩
      rw [Work.cycle_of_ok h]
      exact hfetched.trans (perform_keeps hm.fetched (inRange_of_instruction h))

theorem next_typed {e : StepError} (hm : m.Valid) (he : m.next.result = .error e) : e.Typed := by
  cases ha : m.activity with
  | awaitingKey r =>
    obtain ⟨hint, hok⟩ := poll_succeeds (m := m) (hm.awaited r ha)
    rw [next_awaiting ha, hok] at he
    cases he
  | running =>
    rw [next_running ha] at he
    cases h : m.instruction with
    | error e' =>
      obtain ⟨word, hw⟩ := Work.cycle_of_error h
      rw [hw] at he
      obtain rfl := Except.error.inj he
      rintro cause rfl
      obtain ⟨-, ⟨⟩⟩ | ⟨-, -, ⟨⟩⟩ := instruction_eq_error.1 h
    | ok i =>
      rw [Work.cycle_of_ok h] at he
      exact perform_typed hm.fetched (inRange_of_instruction h) he

/-! ## Actions -/

/-- **Step lemma.** An allowed action keeps the invariant and the size of the display. -/
theorem act_keeps {a : Action} (hm : m.Valid) (ha : a.Allowed) : m.Keeps (m.act a).machine := by
  cases a with
  | next => exact next_keeps hm
  | tick => exact ⟨⟨hm.counter, hm.index, hm.depth, hm.stack, hm.awaited⟩, rfl, rfl⟩
  | edit e => exact ⟨⟨hm.counter, hm.index, hm.depth, hm.stack, hm.awaited⟩, rfl, rfl⟩
  | load rom =>
    obtain h | h := act_load_cases m rom
    · rw [h]
      exact hm.keeps
    · rw [h]
      exact loaded_keeps m rom
  | follow flow =>
    rw [act, Work.follow_apply hm.counter]
    exact ⟨hm.setCounter (Work.target_lt _ _), rfl, rfl⟩
  | perform i =>
    obtain ⟨w, hw⟩ := ha
    exact perform_keeps hm (Instruction.inRange_of_ofWord? hw)
  | execute i =>
    obtain ⟨w, hw⟩ := ha
    exact execute_keeps hm (Instruction.inRange_of_ofWord? hw)

/-- An allowed action gives an answer of its own. -/
theorem act_admits {a : Action} (hm : m.Valid) (ha : a.Allowed) : a.Admits (m.act a).answer := by
  cases a with
  | tick => trivial
  | next =>
    cases h : m.next.result with
    | ok hint => simp only [act, Turn.report, h, Action.Admits]
    | error e =>
      simp only [act, Turn.report, h, Action.Admits]
      exact next_typed hm h
  | edit e =>
    have hacc : e.accepted = true := ha
    simp only [act, actEdit, hacc, if_true, Action.Admits]
  | load rom =>
    by_cases h : rom.size ≤ programLimit
    · simp only [act, load_of_le h, Turn.report, Action.Admits]
    · simp only [act, load_of_lt (Nat.not_le.1 h), Turn.report, LoadError.answer, Action.Admits]
  | follow flow => simp only [act, Work.follow_apply hm.counter, Turn.report, Action.Admits]
  | perform i =>
    obtain ⟨w, hw⟩ := ha
    cases h : (Work.perform i m).result with
    | ok hint => simp only [act, Turn.report, h, Action.Admits]
    | error e =>
      simp only [act, Turn.report, h, Action.Admits]
      exact perform_typed hm (Instruction.inRange_of_ofWord? hw) h
  | execute i =>
    obtain ⟨w, hw⟩ := ha
    have hi := Instruction.inRange_of_ofWord? hw
    cases h : m.obstacle? i with
    | some e =>
      simp only [act, Work.execute_of_obstacle hm hi h, Turn.report, Action.Admits]
      exact typed_of_obstacle? h
    | none =>
      obtain ⟨m', effect, log, hx, -⟩ := Work.execute_of_no_obstacle hm hi h
      simp only [act, hx, Turn.report, Effect.answer, Action.Admits]

theorem act_keeps_of_handsOff {a : Action} (hm : m.Valid) (ha : a.HandsOff) :
    m.Keeps (m.act a).machine := by
  cases a with
  | next => exact next_keeps hm
  | tick => exact act_keeps hm (a := .tick) trivial
  | load rom => exact act_keeps hm (a := .load rom) trivial
  -- a keyboard is no part of the invariant, so it does not matter whether the change is accepted
  | edit e => exact ⟨⟨hm.counter, hm.index, hm.depth, hm.stack, hm.awaited⟩, rfl, rfl⟩
  | follow | perform | execute => cases ha

/-- **Run lemma.** What every action of a kind keeps, a run of such actions keeps. -/
theorem run_keeps_of {p : Action → Prop} {as : List Action} (hm : m.Valid)
    (hact : ∀ {m : Machine} {a : Action}, m.Valid → p a → m.Keeps (m.act a).machine)
    (has : ∀ a ∈ as, p a) : m.Keeps (m.run as) := by
  induction as generalizing m with
  | nil => exact hm.keeps
  | cons a as ih =>
    have hfirst := hact hm (has a (List.mem_cons_self ..))
    exact hfirst.trans (ih hfirst.valid fun b hb => has b (List.mem_cons_of_mem _ hb))

/-- Allowed actions keep the invariant and the size of the display. -/
theorem run_keeps {as : List Action} (hm : m.Valid) (has : ∀ a ∈ as, a.Allowed) :
    m.Keeps (m.run as) :=
  run_keeps_of hm act_keeps has

theorem run_keeps_of_handsOff {as : List Action} (hm : m.Valid) (has : ∀ a ∈ as, a.HandsOff) :
    m.Keeps (m.run as) :=
  run_keeps_of hm act_keeps_of_handsOff has

/-- Every reachable machine is valid. -/
theorem Reachable.valid (h : m.Reachable) : m.Valid := by
  induction h with
  | boot h =>
    obtain ⟨-, rfl⟩ := boot_eq_ok.1 h
    exact (loaded_keeps _ _).valid
  | act _ ha ih => exact (act_keeps ih ha).valid

/-- A run of allowed actions leads to reachable machines only. -/
theorem Reachable.run {as : List Action} (hm : m.Reachable) (has : ∀ a ∈ as, a.Allowed) :
    (m.run as).Reachable := by
  induction as generalizing m with
  | nil => exact hm
  | cons a as ih =>
    exact ih (hm.act (has a (List.mem_cons_self ..))) fun b hb =>
      has b (List.mem_cons_of_mem _ hb)

/-! ## Sessions -/

/-- **Sessions are safe.** A ROM that fits can be booted on any display whose pixels can be counted.
Whatever a host then does, the invariant holds, memory and display keep their sizes, the place of
every pixel is a machine word, and each further action gives one of its own answers: no access,
block or sum in it is out of range. -/
theorem boot_run_sound {rom : Rom} {display : Display} {keyboard : Keyboard} {random : ByteSource}
    {as : List Action} (hrom : rom.size ≤ programLimit)
    (hdisplay : display.width * display.height < wordLimit) (has : ∀ a ∈ as, a.Allowed) :
    ∃ m₀ m, boot rom display keyboard random = .ok m₀ ∧ m₀.run as = m ∧
      m.Valid ∧
      m.memory.toList.length = memorySize ∧
      m.display.width = display.width ∧
      m.display.height = display.height ∧
      m.display.pixels.size = display.width * display.height ∧
      (∀ x y, m.display.contains x y → y * m.display.width + x < wordLimit) ∧
      ∀ a : Action, a.Allowed → a.Admits (m.act a).answer := by
  have hboot := boot_eq_ok (m := (blank display keyboard random).loaded rom).2 ⟨hrom, rfl⟩
  have hloaded := loaded_keeps (blank display keyboard random) rom
  have hkeeps := hloaded.trans (run_keeps hloaded.valid has)
  have hpixels := Display.size_pixels (((blank display keyboard random).loaded rom).run as).display
  rw [hkeeps.width, hkeeps.height] at hpixels
  refine ⟨_, _, hboot, rfl, hkeeps.valid, Bank.length_toList _, hkeeps.width, hkeeps.height,
    hpixels, ?_, ?_⟩
  · intro x y hxy
    have hplace := Display.index_lt hxy
    rw [hpixels] at hplace
    exact Nat.lt_trans hplace hdisplay
  · intro a ha
    exact act_admits hkeeps.valid ha

/-- A session that waits for a key, calls a subroutine and meets an unknown word. -/
theorem boot_run_sound_wait_call :
    ∃ m₀ m,
      boot ⟨"wait", [0xF3, 0x0A, 0x23, 0x00]⟩ (Display.blank 2 1) .released (.cycle #[7]) = .ok m₀ ∧
      m₀.run [.next, .edit (.press 5), .next, .perform (.call 0x300), .next, .tick] = m ∧ m.Valid ∧
      m.display.pixels.size = 2 ∧ ∀ a : Action, a.Allowed → a.Admits (m.act a).answer := by
  have has : ∀ a ∈ ([.next, .edit (.press 5), .next, .perform (.call 0x300), .next, .tick] :
      List Action), a.Allowed := by
    have hcall : Instruction.ofWord? 0x2300 = some (.call 0x300) := by decide
    simp only [List.forall_mem_cons, Action.Allowed]
    exact ⟨trivial, rfl, trivial, ⟨_, hcall⟩, trivial, trivial, fun _ h =>
      absurd h List.not_mem_nil⟩
  obtain ⟨m₀, m, hboot, hrun, hvalid, -, -, -, hsize, -, hadmits⟩ :=
    @boot_run_sound ⟨"wait", [0xF3, 0x0A, 0x23, 0x00]⟩ (.blank 2 1) .released (.cycle #[7]) _
      (by decide) (by decide) has
  exact ⟨m₀, m, hboot, hrun, hvalid, hsize, hadmits⟩

end Machine

end SpriteVM
