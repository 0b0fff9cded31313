import SpriteVM.Proofs.Footprint

/-!
# Sessions one after the other

What a session leaves to the next one. Loading a ROM into a used machine gives the machine that a
boot with this ROM gives over the same display, keyboard and random source, but for the bytes below
the program area: these stay as the old session left them (`loaded_eq_with_memory`). So the two
machines are the same if these bytes are (`loaded_eq_iff`), as they are unless a store of the old
program wrote there (`run_low`).

`load_after_session` puts this together. A program that stores into its glyphs leaves them to the
next program (`load_not_isolated`).
-/

namespace SpriteVM

namespace Machine

variable {m : Machine}

/-! ## The bytes below the program area -/

/-- The two machines have the same bytes below the program area. -/
def SameLow (m m' : Machine) : Prop :=
  ∀ a < programStart, m'.memory.cell a = m.memory.cell a

/-- An action executes an instruction that may write below the program area. -/
def StoresLow (m : Machine) (action : Action) : Prop :=
  ∃ i, m.executes? action = some i ∧ ∃ a < programStart, i.WritesMemory m.index a

/-- Without such a store the bytes below the program area stay. -/
theorem run_low {as : List Action} (hm : m.Valid) (has : ∀ a ∈ as, a.Underway)
    (hstore : ∀ bs a cs, as = bs ++ a :: cs → ¬ (m.run bs).StoresLow a) : m.SameLow (m.run as) := by
  intro a ha
  refine run_memory_cell hm has ?_
  rintro bs b cs hbs ⟨i, hx, hwrites⟩
  exact hstore bs b cs hbs ⟨i, hx, a, ha, hwrites⟩

/-! ## A used machine and a new one -/

/-- The machine that a boot starts from, over the devices of a used machine. -/
def renewed (m : Machine) : Machine :=
  blank m.display m.keyboard m.random

/-- Whatever machine a ROM is loaded into, the program area has the same bytes. -/
theorem cell_loaded_eq {m' : Machine} {rom : Rom} {a : Nat} (ha : programStart ≤ a)
    (hlt : a < memorySize) : (m.loaded rom).memory.cell a = (m'.loaded rom).memory.cell a := by
  obtain ⟨i, rfl⟩ := Nat.exists_eq_add_of_le ha
  have hi : i < programLimit := by
    simp only [programLimit, memorySize] at *
    omega
  rw [cell_loaded hi, cell_loaded hi]

/-- Loading leaves nothing of a used machine but its devices and its memory. -/
theorem loaded_eq_with_memory {rom : Rom} :
    m.loaded rom = { m.renewed.loaded rom with memory := (m.loaded rom).memory } := rfl

/-- Loading makes a used machine and a new one the same if they are the same in their low bytes. -/
theorem loaded_eq_iff {rom : Rom} :
    m.loaded rom = m.renewed.loaded rom ↔ m.renewed.SameLow m := by
  constructor
  · intro h a ha
    have hcell := congrArg (fun m' => m'.memory.cell a) h
    exact (cell_loaded_of_lt ha).symm.trans (hcell.trans (cell_loaded_of_lt ha))
  · intro h
    have hmemory : (m.loaded rom).memory = (m.renewed.loaded rom).memory := by
      refine Bank.eq_of_cell fun a hlt => ?_
      rcases Nat.lt_or_ge a programStart with ha | ha
      · rw [cell_loaded_of_lt ha, cell_loaded_of_lt ha, h a ha]
      · exact cell_loaded_eq ha hlt
    rw [loaded_eq_with_memory, hmemory]

/-- A booted machine has the low bytes of every machine before its first program. -/
theorem sameLow_renewed {rom : Rom} {display : Display} {keyboard : Keyboard} {random : ByteSource}
    (hboot : boot rom display keyboard random = .ok m) (m' : Machine) : m'.renewed.SameLow m := by
  obtain ⟨-, rfl⟩ := boot_eq_ok.1 hboot
  exact fun _ ha => cell_loaded_of_lt ha

/-! ## A store -/

/-- A step that points the index register somewhere. -/
theorem next_loadIndex {nnn : Nat} (ha : m.activity = .running)
    (hi : m.instruction = .ok (.loadIndex nnn)) :
    m.next.machine = { m.fetched with index := nnn, counter := wrap m.fetched.counter } := by
  rw [next_of_execute ha hi (Work.execute_loadIndex nnn) (wrap_lt _)]
  rfl

/-- A step that stores registers. -/
theorem next_storeRegisters {x : Nat} (hx : x < 16) (ha : m.activity = .running)
    (hi : m.instruction = .ok (.storeRegisters x)) (h : m.index + (x + 1) ≤ memorySize) :
    m.next.machine =
      { m.fetched with
        memory := m.memory.fill m.index (m.registers.block 0 (x + 1))
        counter := wrap m.fetched.counter } := by
  rw [next_of_execute ha hi (Work.execute_storeRegisters hx h) (wrap_lt _)]
  rfl

/-- A program that begins by storing the first register at an address does so with two steps. -/
theorem run_store {name : String} {high low : UInt8} {nnn : Nat} {display : Display}
    {keyboard : Keyboard} {random : ByteSource}
    (hboot : boot ⟨name, [high, low, 0xF0, 0x55]⟩ display keyboard random = .ok m)
    (hdecode : decode (Word.ofBytes high low) = .ok (.loadIndex nnn)) :
    m.executes? .next = some (.loadIndex nnn) ∧
      (m.run [.next]).executes? .next = some (.storeRegisters 0) ∧
      (m.run [.next]).index = nnn ∧
      (m.run [.next, .next]).memory = m.memory.fill nnn [0] := by
  have hm : m.Valid := (Reachable.boot hboot).valid
  obtain ⟨hcounter, ha, hregisters, hbytes⟩ : m.counter = programStart ∧ m.activity = .running ∧
      m.registers = Bank.zero ∧ ∀ i < programLimit,
        m.memory.cell (programStart + i) = [high, low, 0xF0, 0x55][i]?.getD 0 := by
    obtain ⟨-, rfl⟩ := boot_eq_ok.1 hboot
    exact ⟨rfl, rfl, rfl, fun i hi => cell_loaded hi⟩
  have hfirst : m.instruction = .ok (.loadIndex nnn) :=
    (instruction_of_cells hcounter (by decide) (hbytes 0 (by decide)) (hbytes 1 (by decide))).trans
      hdecode
  have hnext := next_loadIndex ha hfirst
  have hm' : m.next.machine.Valid := (next_keeps hm).valid
  have ha' : m.next.machine.activity = .running := by
    rw [hnext]
    exact ha
  have hindex : m.next.machine.index = nnn := by rw [hnext]
  have hsecond : m.next.machine.instruction = .ok (.storeRegisters 0) := by
    have hcounter' : m.next.machine.counter = programStart + 2 := by
      rw [hnext, fetched, hcounter]
      rfl
    have hmemory : m.next.machine.memory = m.memory := by
      rw [hnext]
      rfl
    have hhigh : m.next.machine.memory.cell (programStart + 2) = 0xF0 :=
      hmemory ▸ hbytes 2 (by decide)
    have hlow : m.next.machine.memory.cell (programStart + 3) = 0x55 :=
      hmemory ▸ hbytes 3 (by decide)
    exact instruction_of_cells hcounter' (by decide) hhigh hlow
  refine ⟨(executes?_next hm).2 ⟨ha, hfirst, rfl⟩, (executes?_next hm').2 ⟨ha', hsecond, ?_⟩,
    hindex, ?_⟩
  · exact overrun?_eq_none.2 hm'.index
  · have hstored := next_storeRegisters (by decide) ha' hsecond hm'.index
    have hzero : m.next.machine.registers.block 0 1 = [0] := by
      rw [hnext]
      show m.registers.block 0 1 = [0]
      rw [hregisters]
      rfl
    rw [hindex, hzero] at hstored
    show m.next.machine.next.machine.memory = _
    rw [hstored, hnext]
    rfl

/-! ## Sessions -/

/-- **Loading begins a new session.** After any session, a ROM that fits gives the machine that a
boot with it gives over the same devices, in everything but the low bytes of memory. Those are what
the old session left in place of what it began with. So the machines are the same exactly if the old
session ended with the low bytes it began with, in particular if it stored nothing there. -/
theorem load_after_session {first second : Rom} {display : Display} {keyboard : Keyboard}
    {random : ByteSource} {as : List Action}
    (hboot : boot first display keyboard random = .ok m) (has : ∀ a ∈ as, a.Underway)
    (hsecond : second.size ≤ programLimit) :
    ∃ fresh loaded : Machine,
      boot second (m.run as).display (m.run as).keyboard (m.run as).random = .ok fresh ∧
      (m.run as).act (.load second) =
        { machine := loaded, answer := .done, log := [.romLoaded second.name second.size] } ∧
      loaded = { fresh with memory := loaded.memory } ∧
      (∀ a, programStart ≤ a → a < memorySize → loaded.memory.cell a = fresh.memory.cell a) ∧
      (∀ a < programStart, loaded.memory.cell a = (m.run as).memory.cell a ∧
        fresh.memory.cell a = m.memory.cell a) ∧
      (loaded = fresh ↔ m.SameLow (m.run as)) ∧
      (m.SameLow (m.run as) → ∀ later,
        loaded.reports later = fresh.reports later ∧ loaded.run later = fresh.run later) ∧
      ((∀ bs a cs, as = bs ++ a :: cs → ¬ (m.run bs).StoresLow a) → m.SameLow (m.run as)) := by
  have hm : m.Valid := (Reachable.boot hboot).valid
  have hlow : (m.run as).renewed.SameLow m := sameLow_renewed hboot _
  have hiff : (m.run as).loaded second = (m.run as).renewed.loaded second ↔
      m.SameLow (m.run as) := by
    refine loaded_eq_iff.trans ⟨fun h a ha => ?_, fun h a ha => ?_⟩
    · rw [h a ha, hlow a ha]
    · rw [h a ha, hlow a ha]
  refine ⟨(m.run as).renewed.loaded second, (m.run as).loaded second, boot_eq_ok.2 ⟨hsecond, rfl⟩,
    ?_, loaded_eq_with_memory, fun a => cell_loaded_eq, ?_, hiff, ?_, run_low hm has⟩
  · rw [act, load_of_le hsecond]
    rfl
  · intro a ha
    refine ⟨cell_loaded_of_lt ha, ?_⟩
    rw [cell_loaded_of_lt ha, hlow a ha]
  · intro hsame later
    rw [hiff.2 hsame]
    exact ⟨rfl, rfl⟩

/-- A session that stores above its program, and the session after it. -/
theorem load_after_session_store :
    ∃ m loaded : Machine,
      boot ⟨"first", [0xA3, 0x00, 0xF0, 0x55]⟩ .standard .released (.cycle #[7]) = .ok m ∧
      (m.run [.next, .next]).act (.load ⟨"second", [0x00, 0xE0]⟩) =
        { machine := loaded, answer := .done, log := [.romLoaded "second" 2] } ∧
      boot ⟨"second", [0x00, 0xE0]⟩ (m.run [.next, .next]).display
        (m.run [.next, .next]).keyboard (m.run [.next, .next]).random = .ok loaded := by
  obtain ⟨m, hboot⟩ : ∃ m,
      boot ⟨"first", [0xA3, 0x00, 0xF0, 0x55]⟩ .standard .released (.cycle #[7]) = .ok m :=
    ⟨_, boot_eq_ok.2 ⟨by decide, rfl⟩⟩
  have hplay : ∀ a ∈ ([.next, .next] : List Action), a.Underway := by simp [Action.Underway]
  have hfits : Rom.size ⟨"second", [0x00, 0xE0]⟩ ≤ programLimit := by decide
  obtain ⟨fresh, loaded, hfresh, hload, -, -, -, heq, -, hsame⟩ :=
    load_after_session hboot hplay hfits
  have hdecode : decode (Word.ofBytes 0xA3 0x00) = .ok (.loadIndex 0x300) := rfl
  obtain ⟨hfirst, hsecond, hindex, -⟩ := run_store hboot hdecode
  have hstore : ∀ bs a cs, [.next, .next] = bs ++ a :: cs → ¬ (m.run bs).StoresLow a := by
    rintro bs a cs h ⟨i, hi, b, hb, hwrites⟩
    rcases bs with _ | ⟨_, _ | ⟨_, bs⟩⟩
    · obtain ⟨rfl, -⟩ := List.cons.inj h
      obtain rfl := Option.some.inj (hi.symm.trans hfirst)
      exact hwrites
    · obtain ⟨rfl, rfl, -⟩ : _ = _ ∧ _ = a ∧ _ := by simpa using h
      obtain rfl := Option.some.inj (hi.symm.trans hsecond)
      -- the store begins above the program
      have hle : (m.run [.next]).index ≤ b := hwrites.1
      rw [hindex] at hle
      exact absurd hb (Nat.not_lt.2 (Nat.le_trans (by decide) hle))
    · simp at h
  obtain rfl := heq.2 (hsame hstore)
  exact ⟨m, loaded, hboot, hload, hfresh⟩

/-- What a session stores among the glyphs stays there: a session after it does not begin with a new
machine. -/
theorem load_not_isolated :
    ¬ ∀ (first second : Rom) (display : Display) (keyboard : Keyboard) (random : ByteSource)
        (m fresh : Machine) (as : List Action),
      boot first display keyboard random = .ok m → (∀ a ∈ as, a.Underway) →
      second.size ≤ programLimit →
      boot second (m.run as).display (m.run as).keyboard (m.run as).random = .ok fresh →
      ((m.run as).act (.load second)).machine = fresh := by
  intro h
  obtain ⟨m, hboot⟩ : ∃ m,
      boot ⟨"first", [0xA0, 0x50, 0xF0, 0x55]⟩ .standard .released (.cycle #[7]) = .ok m :=
    ⟨_, boot_eq_ok.2 ⟨by decide, rfl⟩⟩
  have hsame := h _ ⟨"second", []⟩ _ _ _ m _ [.next, .next] hboot (by simp [Action.Underway])
    (by decide) (boot_eq_ok.2 ⟨by decide, rfl⟩)
  have hdecode : decode (Word.ofBytes 0xA0 0x50) = .ok (.loadIndex Glyph.location) := rfl
  obtain ⟨-, -, -, hmemory⟩ := run_store hboot hdecode
  -- the top row of the first glyph
  have hused : ((m.run [.next, .next]).loaded ⟨"second", []⟩).memory.cell Glyph.location = 0 := by
    rw [cell_loaded_of_lt (by decide), hmemory, Bank.cell, Bank.get?_fill]
    rfl
  have hnew : ((m.run [.next, .next]).renewed.loaded ⟨"second", []⟩).memory.cell Glyph.location =
      0xF0 := by
    rw [cell_loaded_of_lt (by decide)]
    show (Bank.fill _ _ _).cell _ = _
    rw [Bank.cell, Bank.get?_fill]
    rfl
  rw [act, load_of_le (by decide)] at hsame
  have hcell := congrArg (fun m => m.memory.cell Glyph.location) hsame
  exact absurd (hused.symm.trans (hcell.trans hnew)) (by decide)

end Machine

end SpriteVM
