import SpriteVM.Proofs.Footprint

/-!
# Transfers

Storing registers and loading them again. A transfer is a block of one bank that fills a stretch of
another one (`Bank.cell_fill_block`), so a load undoes a store as long as the index register is back
and the stretch was left alone. That it was left alone follows from the footprints of the actions in
between (`run_memory_cell`).

`Machine.Attempts` treats all the ways alike in which a host can bring an instruction about, and
`transfers_round_trip` speaks of any of them.
-/

namespace SpriteVM

/-- A stretch that is filled from another bank has the bytes of the block, cell by cell. -/
theorem Bank.cell_fill_block {size size' : Nat} {b : Bank size} {c : Bank size'}
    {start first count : Nat} (hb : start + count ≤ size) (hc : first + count ≤ size') (i : Nat) :
    (b.fill start (c.block first count)).cell i =
      if start ≤ i ∧ i < start + count then c.cell (first + (i - start)) else b.cell i := by
  by_cases h : start ≤ i ∧ i < start + count
  · have hplace : start ≤ i ∧ i < start + (c.block first count).length ∧ i < size := by
      rw [length_block hc]
      omega
    have hoffset : i - start < count := by omega
    rw [cell, get?_fill, if_pos hplace, getElem?_block hc, if_pos hoffset, if_pos h,
      Option.getD_some]
  · have houtside : i < start ∨ start + (c.block first count).length ≤ i := by
      rw [length_block hc]
      omega
    rw [cell_fill_of_outside houtside, if_neg h]

namespace Work

/-- An instruction after which the machine goes on with the next word can be performed in every
state in which it can be executed. -/
theorem perform_of_execute_next {i : Instruction} {m m' : Machine} {log : List Message}
    (h : execute i m = { machine := m', result := .ok {}, log }) :
    perform i m =
      { machine := { m' with counter := wrap m'.counter }, result := .ok .idle, log } := by
  rw [perform, bind_of_ok (by rw [h]), h]
  show ({ machine := _, result := _, log := log ++ [] } : Turn StepError Hint) = _
  rw [List.append_nil]
  rfl

end Work

namespace Machine

variable {m m' : Machine} {i : Instruction} {a : Action} {x : Nat}

/-! ## Attempts -/

/-- An action sets out to execute the instruction. -/
def Attempts (m : Machine) (a : Action) (i : Instruction) : Prop :=
  match a with
  | .next => m.activity = .running ∧ m.instruction = .ok i
  | .perform j | .execute j => j = i
  | _ => False

/-- The machine on which an action executes an instruction. -/
def poised (m : Machine) : Action → Machine
  | .next => m.fetched
  | _ => m

@[simp] theorem poised_index (m : Machine) (a : Action) : (m.poised a).index = m.index := by
  cases a <;> rfl

@[simp] theorem poised_registers (m : Machine) (a : Action) :
    (m.poised a).registers = m.registers := by
  cases a <;> rfl

@[simp] theorem poised_memory (m : Machine) (a : Action) : (m.poised a).memory = m.memory := by
  cases a <;> rfl

/-- An attempt at an instruction that can be executed and goes on with the next word. -/
theorem act_of_attempts {log : List Message} (h : m.Attempts a i)
    (hx : Work.execute i (m.poised a) = { machine := m', result := .ok {}, log }) :
    m.executes? a = some i ∧
      (m.act a).machine = { m' with counter := (m.act a).machine.counter } := by
  cases a with
  | next =>
    obtain ⟨ha, hi⟩ := h
    have hperform : Work.perform i m.fetched = _ := Work.perform_of_execute_next hx
    have hnext : m.next =
        { machine := { m' with counter := wrap m'.counter }
          result := .ok .idle
          log := .executing m.counter m.current i :: log } := by
      rw [next_running ha, Work.cycle_of_ok hi, hperform]
    constructor
    · rw [executes?, hnext, hi, if_pos ⟨ha, rfl⟩]
      rfl
    · rw [act, hnext]
      rfl
  | perform j =>
    obtain rfl : j = i := h
    have hperform : Work.perform j m = _ := Work.perform_of_execute_next hx
    rw [executes?, act, hperform]
    exact ⟨rfl, rfl⟩
  | execute j =>
    obtain rfl : j = i := h
    have hexecute : Work.execute j m = _ := hx
    rw [executes?, act, hexecute]
    exact ⟨rfl, rfl⟩
  | tick | load | edit | follow => cases h

/-- An attempt keeps the invariant, whatever comes of it. -/
theorem act_keeps_of_attempts (hm : m.Valid) (hi : i.InRange) (h : m.Attempts a i) :
    m.Keeps (m.act a).machine := by
  cases a with
  | next => exact next_keeps hm
  | perform j =>
    obtain rfl : j = i := h
    exact perform_keeps hm hi
  | execute j =>
    obtain rfl : j = i := h
    exact execute_keeps hm hi
  | tick | load | edit | follow => cases h

/-! ## The three transfers -/

/-- An attempt at storing registers that fit at the index register. -/
theorem act_storeRegisters (hx : x < 16) (hfits : m.index + (x + 1) ≤ memorySize)
    (h : m.Attempts a (.storeRegisters x)) :
    m.executes? a = some (.storeRegisters x) ∧ (m.act a).machine.index = m.index ∧
      (m.act a).machine.registers = m.registers ∧
      (m.act a).machine.memory = m.memory.fill m.index (m.registers.block 0 (x + 1)) := by
  obtain ⟨hexecutes, hact⟩ := act_of_attempts h (Work.execute_storeRegisters hx (by simpa))
  rw [hact]
  simp [hexecutes]

/-- An attempt at loading registers that fit at the index register. -/
theorem act_loadRegisters (hx : x < 16) (hfits : m.index + (x + 1) ≤ memorySize)
    (h : m.Attempts a (.loadRegisters x)) :
    m.executes? a = some (.loadRegisters x) ∧ (m.act a).machine.index = m.index ∧
      (m.act a).machine.registers = m.registers.fill 0 (m.memory.block m.index (x + 1)) ∧
      (m.act a).machine.memory = m.memory := by
  obtain ⟨hexecutes, hact⟩ := act_of_attempts h (Work.execute_loadRegisters hx (by simpa))
  rw [hact]
  simp [hexecutes]

/-- An attempt at storing decimal digits that fit at the index register. -/
theorem act_storeDecimal (hx : x < 16) (hfits : m.index + 3 ≤ memorySize)
    (h : m.Attempts a (.storeDecimal x)) :
    m.executes? a = some (.storeDecimal x) ∧ (m.act a).machine.index = m.index ∧
      (m.act a).machine.registers = m.registers ∧
      (m.act a).machine.memory =
        m.memory.fill m.index (Work.decimalDigits (m.registers.cell x)) := by
  obtain ⟨hexecutes, hact⟩ := act_of_attempts h (Work.execute_storeDecimal hx (by simpa))
  rw [hact]
  simp [hexecutes]

/-- The decimal digits of a byte make up its number. -/
theorem decimalDigits_sum (v : UInt8) :
    (v / 100).toNat ≤ 9 ∧ (v / 10 % 10).toNat ≤ 9 ∧ (v % 10).toNat ≤ 9 ∧
      100 * (v / 100).toNat + 10 * (v / 10 % 10).toNat + (v % 10).toNat = v.toNat := by
  have hv := v.toNat_lt
  simp only [UInt8.toNat_div, UInt8.toNat_mod, UInt8.reduceToNat]
  omega

/-! ## Round trips -/

/-- The second and the third machine are those before and after a load that brings the registers up
to `x` back from the first one. -/
structure Restores (m : Machine) (x : Nat) (m₂ m₃ : Machine) : Prop where
  /-- the registers up to `x` have their old contents -/
  restored : ∀ r ≤ x, m₃.registers.cell r = m.registers.cell r
  /-- the later ones stay as they are -/
  later : ∀ r, x < r → m₃.registers.cell r = m₂.registers.cell r
  /-- the index register stays -/
  index : m₃.index = m₂.index
  /-- memory stays -/
  memory : m₃.memory = m₂.memory

variable {m₁ m₂ m₃ : Machine} {b : Action}

/-- The registers after a load, one by one. -/
theorem cell_act_loadRegisters (hx : x < 16) (hfits : m.index + (x + 1) ≤ memorySize)
    (ha : m.Attempts a (.loadRegisters x)) (r : Nat) :
    (m.act a).machine.registers.cell r =
      if r ≤ x then m.memory.cell (m.index + r) else m.registers.cell r := by
  obtain ⟨-, -, hregisters, -⟩ := act_loadRegisters hx hfits ha
  rw [hregisters, Bank.cell_fill_block (by omega) hfits]
  simp only [Nat.zero_le, Nat.zero_add, true_and, Nat.sub_zero, Nat.lt_succ_iff]

/-- Stored registers are in memory, the first one at the index register. -/
theorem cell_act_storeRegisters (hx : x < 16) (hfits : m.index + (x + 1) ≤ memorySize)
    (ha : m.Attempts a (.storeRegisters x)) {r : Nat} (hr : r ≤ x) :
    (m.act a).machine.memory.cell (m.index + r) = m.registers.cell r := by
  obtain ⟨-, -, -, hmemory⟩ := act_storeRegisters hx hfits ha
  have hplace : m.index ≤ m.index + r ∧ m.index + r < m.index + (x + 1) := by omega
  rw [hmemory, Bank.cell_fill_block hfits (by omega), if_pos hplace, Nat.zero_add,
    Nat.add_sub_cancel_left]

/-- A load from a place that holds the first registers of a machine restores them. -/
theorem restores_of_attempts (hx : x < 16) (hfits : m₂.index + (x + 1) ≤ memorySize)
    (hplace : ∀ r ≤ x, m₂.memory.cell (m₂.index + r) = m.registers.cell r)
    (hb : m₂.Attempts b (.loadRegisters x)) : m.Restores x m₂ (m₂.act b).machine := by
  obtain ⟨-, hindex, -, hmemory⟩ := act_loadRegisters hx hfits hb
  refine ⟨?_, ?_, hindex, hmemory⟩
  · intro r hr
    rw [cell_act_loadRegisters hx hfits hb, if_pos hr, hplace r hr]
  · intro r hr
    rw [cell_act_loadRegisters hx hfits hb, if_neg (Nat.not_le.2 hr)]

/-- Storing what was just loaded from the same place changes no byte. -/
theorem memory_load_store (hx : x < 16) (hfits : m.index + (x + 1) ≤ memorySize)
    (ha : m.Attempts a (.loadRegisters x))
    (hb : (m.act a).machine.Attempts b (.storeRegisters x)) :
    ((m.act a).machine.act b).machine.memory = m.memory := by
  obtain ⟨-, hindex, hregisters, hmemory⟩ := act_loadRegisters hx hfits ha
  obtain ⟨-, -, -, hmemory'⟩ := act_storeRegisters hx (hindex ▸ hfits) hb
  rw [hmemory', hindex, hregisters, hmemory]
  refine Bank.eq_of_cell fun c _ => ?_
  rw [Bank.cell_fill_block hfits (by omega)]
  split
  · next hplace =>
    have hoffset : 0 ≤ 0 + (c - m.index) ∧ 0 + (c - m.index) < 0 + (x + 1) := by omega
    have hback : m.index + (0 + (c - m.index) - 0) = c := by omega
    rw [Bank.cell_fill_block (by omega) hfits, if_pos hoffset, hback]
  · rfl

/-- A load undoes a store if the index register is back and nothing was stored there in between. -/
theorem restores_of_run {as : List Action} (hm : m.Valid) (hx : x < 16)
    (hfits : m.index + (x + 1) ≤ memorySize) (ha : m.Attempts a (.storeRegisters x))
    (has : ∀ c ∈ as, c.Underway)
    (hstore : ∀ bs c cs, as = bs ++ c :: cs → ∀ address, m.index ≤ address →
      address ≤ m.index + x → ¬ ((m.act a).machine.run bs).StoresAt address c)
    (hindex : ((m.act a).machine.run as).index = m.index)
    (hb : ((m.act a).machine.run as).Attempts b (.loadRegisters x)) :
    m.Restores x ((m.act a).machine.run as) (((m.act a).machine.run as).act b).machine := by
  have hi : (Instruction.storeRegisters x).InRange := hx
  have hvalid : (m.act a).machine.Valid := (act_keeps_of_attempts hm hi ha).valid
  refine restores_of_attempts hx (hindex ▸ hfits) ?_ hb
  intro r hr
  rw [hindex, ← cell_act_storeRegisters hx hfits ha hr]
  refine run_memory_cell hvalid has ?_
  intro bs c cs hbs
  exact hstore bs c cs hbs _ (Nat.le_add_right ..) (Nat.add_le_add_left hr _)

/-- Decimal digits that were stored are loaded into the first three registers. -/
theorem digits_round_trip (hx : x < 16) (hfits : m.index + 3 ≤ memorySize)
    (ha : m.Attempts a (.storeDecimal x))
    (hb : (m.act a).machine.Attempts b (.loadRegisters 2)) :
    ((m.act a).machine.act b).machine.registers.cell 0 = m.registers.cell x / 100 ∧
      ((m.act a).machine.act b).machine.registers.cell 1 = m.registers.cell x / 10 % 10 ∧
      ((m.act a).machine.act b).machine.registers.cell 2 = m.registers.cell x % 10 := by
  obtain ⟨-, hindex, -, hmemory⟩ := act_storeDecimal hx hfits ha
  have hfits' : (m.act a).machine.index + (2 + 1) ≤ memorySize := hindex ▸ hfits
  have hcell : ∀ r ≤ 2, ((m.act a).machine.act b).machine.registers.cell r =
      (Work.decimalDigits (m.registers.cell x))[r]?.getD 0 := by
    intro r hr
    have hplace : m.index ≤ m.index + r ∧
        m.index + r < m.index + (Work.decimalDigits (m.registers.cell x)).length ∧
        m.index + r < memorySize := by
      simp only [Work.decimalDigits, List.length_cons, List.length_nil]
      omega
    rw [cell_act_loadRegisters (by decide) hfits' hb, if_pos hr, hindex, hmemory, Bank.cell,
      Bank.get?_fill, if_pos hplace, Nat.add_sub_cancel_left]
  exact ⟨hcell 0 (by decide), hcell 1 (by decide), hcell 2 (by decide)⟩

/-- **Transfers are undone by their opposites.** However they are brought about: storing registers
where they fit succeeds, and so does loading them from the same address later on. When nothing was
stored at these addresses in between, that restores them, and the later registers stay as they are.
A load that is followed at once by a store of the same registers changes no byte of memory. The
three decimal digits of a register, stored and loaded, make up its number, and no other byte of
memory changes. None of this moves the index register. -/
theorem transfers_round_trip :
    (∀ (m m₁ m₂ m₃ : Machine) (x : Nat) (a b : Action) (as : List Action), m.Valid → x < 16 →
      m.index + x + 1 ≤ 4096 → m.Attempts a (.storeRegisters x) → (m.act a).machine = m₁ →
      (∀ c ∈ as, c.Underway) →
      (∀ bs c cs, as = bs ++ c :: cs → ∀ address, m.index ≤ address → address ≤ m.index + x →
        ¬ (m₁.run bs).StoresAt address c) →
      m₁.run as = m₂ → m₂.index = m.index → m₂.Attempts b (.loadRegisters x) →
      (m₂.act b).machine = m₃ →
      m.executes? a = some (.storeRegisters x) ∧ m₁.index = m.index ∧
        m₁.registers = m.registers ∧
        m₂.executes? b = some (.loadRegisters x) ∧ m.Restores x m₂ m₃) ∧
    (∀ (m m₁ m₂ : Machine) (x : Nat) (a b : Action), x < 16 → m.index + x + 1 ≤ 4096 →
      m.Attempts a (.loadRegisters x) → (m.act a).machine = m₁ →
      m₁.Attempts b (.storeRegisters x) → (m₁.act b).machine = m₂ →
      m.executes? a = some (.loadRegisters x) ∧ m₁.executes? b = some (.storeRegisters x) ∧
        m₂.memory = m.memory ∧ m₁.index = m.index ∧ m₂.index = m.index) ∧
    ∀ (m m₁ m₂ : Machine) (x : Nat) (a b : Action), x < 16 → m.index + 3 ≤ 4096 →
      m.Attempts a (.storeDecimal x) → (m.act a).machine = m₁ →
      m₁.Attempts b (.loadRegisters 2) → (m₁.act b).machine = m₂ →
      m.executes? a = some (.storeDecimal x) ∧ m₁.executes? b = some (.loadRegisters 2) ∧
        (m₂.registers.cell 0).toNat ≤ 9 ∧ (m₂.registers.cell 1).toNat ≤ 9 ∧
        (m₂.registers.cell 2).toNat ≤ 9 ∧
        100 * (m₂.registers.cell 0).toNat + 10 * (m₂.registers.cell 1).toNat +
          (m₂.registers.cell 2).toNat = (m.registers.cell x).toNat ∧
        m₁.index = m.index ∧ m₂.index = m.index ∧
        ∀ address, address < m.index ∨ m.index + 2 < address →
          m₂.memory.cell address = m.memory.cell address := by
  refine ⟨?_, ?_, ?_⟩
  · rintro m _ _ _ x a b as hm hx hfits ha rfl has hstore rfl hindex hb rfl
    obtain ⟨hexecutes, hindex', hregisters, -⟩ := act_storeRegisters hx hfits ha
    obtain ⟨hexecutes', -⟩ := act_loadRegisters hx (hindex ▸ hfits) hb
    exact ⟨hexecutes, hindex', hregisters, hexecutes',
      restores_of_run hm hx hfits ha has hstore hindex hb⟩
  · rintro m _ _ x a b hx hfits ha rfl hb rfl
    obtain ⟨hexecutes, hindex, -, -⟩ := act_loadRegisters hx hfits ha
    obtain ⟨hexecutes', hindex', -, -⟩ := act_storeRegisters hx (hindex ▸ hfits) hb
    exact ⟨hexecutes, hexecutes', memory_load_store hx hfits ha hb, hindex,
      hindex'.trans hindex⟩
  · rintro m _ _ x a b hx hfits ha rfl hb rfl
    obtain ⟨hexecutes, hindex, -, hmemory⟩ := act_storeDecimal hx hfits ha
    obtain ⟨hexecutes', hindex', -, hmemory'⟩ :=
      act_loadRegisters (x := 2) (by decide) (hindex ▸ hfits) hb
    obtain ⟨h₀, h₁, h₂⟩ := digits_round_trip hx hfits ha hb
    obtain ⟨hle₀, hle₁, hle₂, hsum⟩ := decimalDigits_sum (m.registers.cell x)
    rw [h₀, h₁, h₂]
    refine ⟨hexecutes, hexecutes', hle₀, hle₁, hle₂, hsum, hindex, hindex'.trans hindex, ?_⟩
    intro address haddress
    rw [hmemory', hmemory]
    refine Bank.cell_fill_of_outside ?_
    simp only [Work.decimalDigits, List.length_cons, List.length_nil]
    omega

/-- A register that is stored, overwritten by a step and loaded again, and that passes through its
decimal digits. -/
theorem transfers_round_trip_overwritten :
    ∃ m m₂ : Machine, m.Valid ∧ (m.registers.cell 0).toNat = 237 ∧
      (m.act (.execute (.storeRegisters 0))).machine.run [.next] = m₂ ∧
      (m₂.registers.cell 0).toNat = 42 ∧
      ((m₂.act (.execute (.loadRegisters 0))).machine.registers.cell 0).toNat = 237 ∧
      (m.run [.execute (.loadRegisters 5), .execute (.storeRegisters 5)]).memory = m.memory ∧
      100 * ((m.run [.execute (.storeDecimal 0), .perform (.loadRegisters 2)]).registers.cell
          0).toNat +
        10 * ((m.run [.execute (.storeDecimal 0), .perform (.loadRegisters 2)]).registers.cell
          1).toNat +
        ((m.run [.execute (.storeDecimal 0), .perform (.loadRegisters 2)]).registers.cell
          2).toNat = 237 := by
  obtain ⟨m, hm, hrunning, hcounter, hindex, hvalue, hhigh, hlow⟩ : ∃ m : Machine, m.Valid ∧
      m.activity = .running ∧ m.counter = 0x200 ∧ m.index = 0x300 ∧
      (m.registers.cell 0).toNat = 237 ∧ m.memory.cell 0x200 = 0x60 ∧
      m.memory.cell 0x201 = 0x2A := by
    have hloaded := (loaded_keeps (blank .standard .released (.cycle #[]))
      ⟨"transfer", [0x60, 0x2A]⟩).valid
    refine ⟨{ (blank .standard .released (.cycle #[])).loaded ⟨"transfer", [0x60, 0x2A]⟩ with
      registers := Bank.zero.put 0 237, index := 0x300 },
      ⟨hloaded.counter, by decide, hloaded.depth, hloaded.stack, hloaded.awaited⟩, rfl, rfl, rfl,
      by decide, cell_loaded (i := 0) (by decide), cell_loaded (i := 1) (by decide)⟩
  have hfits : m.index + (5 + 1) ≤ 4096 := by
    rw [hindex]
    decide
  obtain ⟨hundone, hkept, hdigits⟩ := transfers_round_trip
  -- the store leaves the program alone, so the step after it overwrites the register
  obtain ⟨m₁, hm₁⟩ : ∃ m₁, (m.act (.execute (.storeRegisters 0))).machine = m₁ := ⟨_, rfl⟩
  have hact : m₁ = { m with memory := m.memory.fill m.index (m.registers.block 0 1) } := by
    rw [← hm₁, act, Work.execute_storeRegisters (by decide) (Nat.le_trans (by omega) hfits)]
    rfl
  have hvalid₁ : m₁.Valid := by
    rw [hact]
    exact ⟨hm.counter, hm.index, hm.depth, hm.stack, hm.awaited⟩
  have hi₁ : m₁.instruction = .ok (.loadByte 0 42) := by
    have houtside : ∀ address < 0x300,
        m₁.memory.cell address = m.memory.cell address := by
      intro address haddress
      rw [hact]
      exact Bank.cell_fill_of_outside (.inl (by rw [hindex]; exact haddress))
    have hcounter₁ : m₁.counter = 0x200 := by
      rw [hact]
      exact hcounter
    exact instruction_of_cells hcounter₁ (by decide)
      ((houtside 0x200 (by decide)).trans hhigh) ((houtside 0x201 (by decide)).trans hlow)
  have hrunning₁ : m₁.activity = .running := by
    rw [hact]
    exact hrunning
  have hnext := next_of_execute hrunning₁ hi₁ (Work.execute_loadByte (by decide) 42) (wrap_lt _)
  obtain ⟨m₂, hm₂⟩ : ∃ m₂, m₁.run [.next] = m₂ := ⟨_, rfl⟩
  have hindex₂ : m₂.index = m.index := by
    rw [← hm₂, run, run, act, hnext, hact]
    rfl
  have hvalue₂ : (m₂.registers.cell 0).toNat = 42 := by
    rw [← hm₂, run, run, act, hnext]
    exact congrArg UInt8.toNat ((Bank.cell_put (by decide) 42 0).trans (if_pos rfl))
  have hquiet : ∀ bs c cs, [Action.next] = bs ++ c :: cs → ∀ address, m.index ≤ address →
      address ≤ m.index + 0 → ¬ (m₁.run bs).StoresAt address c := by
    rintro bs c cs hbs address - - ⟨i, hi, hwrites⟩
    rcases bs with _ | ⟨_, bs⟩
    · obtain ⟨rfl, -⟩ := List.cons.inj hbs
      obtain ⟨-, hi, -⟩ := (executes?_next hvalid₁).1 hi
      obtain rfl := Except.ok.inj (hi₁.symm.trans hi)
      exact hwrites
    · simp at hbs
  obtain ⟨-, -, -, -, hrestores⟩ := hundone m m₁ m₂ _ 0 (.execute (.storeRegisters 0))
    (.execute (.loadRegisters 0)) [.next] hm (by decide) (by omega) rfl hm₁
    (by simp [Action.Underway]) hquiet hm₂ hindex₂ rfl rfl
  obtain ⟨-, -, hmemory, -, -⟩ := hkept m _ _ 5 (.execute (.loadRegisters 5))
    (.execute (.storeRegisters 5)) (by decide) hfits rfl rfl rfl rfl
  obtain ⟨-, -, -, -, -, hsum, -⟩ := hdigits m _ _ 0 (.execute (.storeDecimal 0))
    (.perform (.loadRegisters 2)) (by decide) (by omega) rfl rfl rfl rfl
  exact ⟨m, m₂, hm, hvalue, by rw [hm₁, hm₂], hvalue₂,
    (congrArg UInt8.toNat (hrestores.restored 0 (Nat.le_refl 0))).trans hvalue, hmemory,
    hsum.trans hvalue⟩

end Machine

end SpriteVM
