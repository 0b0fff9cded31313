import SpriteVM.Proofs.Footprint

/-!
# What a step reads

The other half of a footprint. `Machine.Reads` are the addresses whose contents a step may depend
on. Exchange the memory of a machine for one that agrees with it there; then the step gives the same
result, logs the same and leads to the same state, but for the memory, which is the exchanged one
with the same bytes stored in it (`next_withMemory`). `next_reads` says it of two machines, cell by
cell.
-/

namespace SpriteVM

namespace Machine

variable {m : Machine} {i : Instruction} {memory : Memory}

/-! ## Exchanging the memory -/

/-- The addresses that a step may read: those of the word at the program counter, and sixteen from
the index register on. -/
def Reads (m : Machine) (a : Nat) : Prop :=
  a = m.counter ∨ a = m.counter + 1 ∨ m.index ≤ a ∧ a < m.index + 16

/-- A memory has the same contents as that of a machine wherever a step may read. -/
def Agrees (m : Machine) (memory : Memory) : Prop :=
  ∀ a < memorySize, m.Reads a → memory.cell a = m.memory.cell a

/-- A memory has the same contents as that of a machine wherever an instruction may read. -/
def AgreesAtIndex (m : Machine) (memory : Memory) : Prop :=
  ∀ a < memorySize, m.index ≤ a → a < m.index + 16 → memory.cell a = m.memory.cell a

theorem Agrees.atIndex (h : m.Agrees memory) : m.AgreesAtIndex memory :=
  fun a ha hle hlt => h a ha (.inr (.inr ⟨hle, hlt⟩))

/-- The machine with another memory. -/
def withMemory (m : Machine) (memory : Memory) : Machine :=
  { m with memory }

/-- What an instruction stores, stored in any memory. -/
def stored (m : Machine) (i : Instruction) (memory : Memory) : Memory :=
  match i with
  | .storeDecimal x => memory.fill m.index (Work.decimalDigits (m.registers.cell x))
  | .storeRegisters x => memory.fill m.index (m.registers.block 0 (x + 1))
  | _ => memory

theorem Valid.withMemory (hm : m.Valid) : (m.withMemory memory).Valid :=
  ⟨hm.counter, hm.index, hm.depth, hm.stack, hm.awaited⟩

/-- Whether an instruction can be carried out depends on the place of its block, not on the bytes
there. -/
theorem obstacle?_withMemory : (m.withMemory memory).obstacle? i = m.obstacle? i := by
  cases i <;> rfl

/-- The blocks that instructions read have at most sixteen bytes. -/
theorem AgreesAtIndex.block (h : m.AgreesAtIndex memory) {count : Nat} (hcount : count ≤ 16)
    (hblock : m.index + count ≤ memorySize) :
    memory.block m.index count = m.memory.block m.index count := by
  refine Bank.block_congr hblock fun a hle hlt => ?_
  exact h a (Nat.lt_of_lt_of_le hlt hblock) hle
    (Nat.lt_of_lt_of_le hlt (Nat.add_le_add_left hcount m.index))

/-- An executed instruction reads memory in a block at the index register only. -/
theorem execute_withMemory (hm : m.Valid) (hi : i.InRange) (ho : m.obstacle? i = none)
    (h : m.AgreesAtIndex memory) :
    Work.execute i (m.withMemory memory) =
      { Work.execute i m with
        machine := (Work.execute i m).machine.withMemory (m.stored i memory) } := by
  cases i with
  | sys nnn => rfl
  | clear => rfl
  | jump nnn => rfl
  | loadIndex nnn => rfl
  | waitKey x => rfl
  | jumpOffset nnn => rw [Work.execute_jumpOffset hi, Work.execute_jumpOffset hi]; rfl
  | skip c => rw [Work.execute_skip hi, Work.execute_skip hi]; rfl
  | loadByte x kk => rw [Work.execute_loadByte hi kk, Work.execute_loadByte hi kk]; rfl
  | addByte x kk => rw [Work.execute_addByte hi kk, Work.execute_addByte hi kk]; rfl
  | random x kk => rw [Work.execute_random hi kk, Work.execute_random hi kk]; rfl
  | combine op x y => rw [Work.execute_combine hi.1 hi.2, Work.execute_combine hi.1 hi.2]; rfl
  | addIndex x =>
    rw [Work.execute_addIndex (m := m.withMemory memory) hi hm.index,
      Work.execute_addIndex hi hm.index]
    rfl
  | loadGlyph x => rw [Work.execute_loadGlyph hi, Work.execute_loadGlyph hi]; rfl
  | readDelay x => rw [Work.execute_readDelay hi, Work.execute_readDelay hi]; rfl
  | setDelay x => rw [Work.execute_setDelay hi, Work.execute_setDelay hi]; rfl
  | setSound x => rw [Work.execute_setSound hi, Work.execute_setSound hi]; rfl
  | ret =>
    obtain ⟨address, stack, hs⟩ := List.exists_cons_of_ne_nil (stack_ne_nil ho)
    rw [Work.execute_ret_cons (m := m.withMemory memory) hs, Work.execute_ret_cons hs]
    rfl
  | call nnn =>
    have hroom := length_stack_ne ho
    rw [Work.execute_call (m := m.withMemory memory) hroom, Work.execute_call hroom]
    rfl
  -- the instructions that read or write a block
  | draw x y n =>
    have hblock := overrun?_eq_none.1 ho
    have hpoints : (m.withMemory memory).spritePoints x y n = m.spritePoints x y n :=
      congrArg _ (h.block (Nat.le_of_lt hi.2.2) hblock)
    rw [Work.execute_draw (m := m.withMemory memory) hi.1 hi.2.1 hblock,
      Work.execute_draw hi.1 hi.2.1 hblock, drawn, hpoints]
    rfl
  | storeDecimal x =>
    have hblock := overrun?_eq_none.1 ho
    rw [Work.execute_storeDecimal (m := m.withMemory memory) hi hblock,
      Work.execute_storeDecimal hi hblock]
    rfl
  | storeRegisters x =>
    have hblock := overrun?_eq_none.1 ho
    rw [Work.execute_storeRegisters (m := m.withMemory memory) hi hblock,
      Work.execute_storeRegisters hi hblock]
    rfl
  | loadRegisters x =>
    have hblock := overrun?_eq_none.1 ho
    have hbytes : (m.withMemory memory).memory.block (m.withMemory memory).index (x + 1) =
        m.memory.block m.index (x + 1) := h.block hi hblock
    rw [Work.execute_loadRegisters (m := m.withMemory memory) hi hblock,
      Work.execute_loadRegisters hi hblock, hbytes]
    rfl

/-! ## Fetching from another memory -/

/-- The word at the program counter is made of two bytes that a step may read. -/
theorem Agrees.current (h : m.Agrees memory) (hlt : m.counter + 1 < memorySize) :
    (m.withMemory memory).current = m.current := by
  have hhigh := h m.counter (Nat.lt_of_succ_lt hlt) (.inl rfl)
  have hlow := h (m.counter + 1) hlt (.inr (.inl rfl))
  show Word.ofBytes (memory.cell m.counter) (memory.cell (m.counter + 1)) = _
  rw [hhigh, hlow, Machine.current]

theorem Agrees.fetched (h : m.Agrees memory) (hlt : m.counter + 1 < memorySize) :
    (m.withMemory memory).fetched = m.fetched.withMemory memory := by
  rw [Machine.fetched, h.current hlt]
  rfl

theorem Agrees.instruction (h : m.Agrees memory) :
    (m.withMemory memory).instruction = m.instruction := by
  rcases Nat.lt_or_ge (m.counter + 1) memorySize with hlt | hle
  · rw [instruction_of_lt (m := m.withMemory memory) hlt, instruction_of_lt hlt, h.current hlt]
  · rw [instruction_of_le (m := m.withMemory memory) hle, instruction_of_le hle]
    rfl

/-! ## Steps in another memory -/

/-- What a step stores, stored in any memory. -/
def written (m : Machine) (memory : Memory) : Memory :=
  match m.executes? .next with
  | some i => m.stored i memory
  | none => memory

theorem written_of_none (h : m.executes? .next = none) : m.written memory = memory := by
  rw [written, h]

theorem written_of_some (h : m.executes? .next = some i) :
    m.written memory = m.stored i memory := by
  rw [written, h]

/-- **Exchanging the memory.** A step leads to the same in a memory that agrees with that of the
machine where the step may read, and it stores the same bytes there. -/
theorem next_withMemory (hm : m.Valid) (h : m.Agrees memory) :
    (m.withMemory memory).next =
      { m.next with machine := m.next.machine.withMemory (m.written memory) } := by
  have hm' : (m.withMemory memory).Valid := hm.withMemory
  cases ha : m.activity with
  | awaitingKey r =>
    have hx : m.executes? .next = none := by rw [executes?, ha, if_neg (by simp)]
    rw [next_awaiting (m := m.withMemory memory) ha, next_awaiting ha, written_of_none hx]
    cases hkey : m.keyboard.lowest? with
    | none =>
      rw [Work.poll_of_none (m := m.withMemory memory) hkey, Work.poll_of_none hkey]
    | some key =>
      have hr := hm.awaited r ha
      rw [Work.poll_of_some (m := m.withMemory memory) hr hkey, Work.poll_of_some hr hkey]
      rfl
  | running =>
    cases hi : m.instruction with
    | error e =>
      rw [written_of_none (executes?_of_error hi), next_running (m := m.withMemory memory) ha,
        next_running ha]
      rcases instruction_eq_error.1 hi with ⟨hle, -⟩ | ⟨hlt, hw, -⟩
      · rw [Work.cycle_of_noWord (m := m.withMemory memory) hle, Work.cycle_of_noWord hle]
        rfl
      · have hcurrent := h.current hlt
        rw [← hcurrent] at hw
        rw [Work.cycle_of_invalidWord (m := m.withMemory memory) hlt hw, hcurrent,
          Work.cycle_of_invalidWord hlt (hcurrent ▸ hw)]
        rfl
    | ok i =>
      have hi' := h.instruction.trans hi
      have hcurrent := h.current (instruction_eq_ok.1 hi).1
      have hfetched := h.fetched (instruction_eq_ok.1 hi).1
      cases ho : m.fetched.obstacle? i with
      | some e =>
        have ho' : (m.withMemory memory).fetched.obstacle? i = some e := by
          rw [hfetched, obstacle?_withMemory, ho]
        have hnext := next_of_obstacle hm ha hi ho
        have hx : m.executes? .next = none := by
          rw [executes?, hnext]
          exact if_neg fun h => Bool.false_ne_true h.2
        rw [next_of_obstacle hm' ha hi' ho', hnext, written_of_none hx, hfetched, hcurrent]
        rfl
      | none =>
        have hx := (executes?_next hm).2 ⟨ha, hi, ho⟩
        have hwork := execute_withMemory hm.fetched (inRange_of_instruction hi) ho h.atIndex
        obtain ⟨m', effect, log, hm'work, hsettled, hnext⟩ := next_of_no_obstacle hm ha hi ho
        rw [← hfetched, hm'work] at hwork
        rw [next_of_execute (m := m.withMemory memory) ha hi' hwork hsettled.valid.counter, hnext,
          hcurrent, written_of_some hx, ← hsettled.counter]
        rfl

/-- In another memory a step executes the same instruction. -/
theorem executes?_withMemory (hm : m.Valid) (h : m.Agrees memory) :
    (m.withMemory memory).executes? .next = m.executes? .next := by
  rw [executes?, next_withMemory hm h, h.instruction, executes?]
  rfl

/-- A step leaves memory with what it stores. -/
theorem next_memory (hm : m.Valid) : m.next.machine.memory = m.written m.memory :=
  congrArg (fun t => t.machine.memory) (next_withMemory hm fun _ _ _ => rfl)

/-! ## What is stored -/

/-- A step stores at an address. -/
def Overwrites (m : Machine) (a : Nat) : Prop :=
  ∃ i, m.executes? .next = some i ∧ i.WritesMemory m.index a

/-- What a step stores depends on the registers, not on the memory that it is stored in. -/
theorem cell_written_of_overwrites {a : Nat} (hm : m.Valid) (h : m.Overwrites a)
    (memory' : Memory) : (m.written memory).cell a = (m.written memory').cell a := by
  obtain ⟨i, hx, hwrites⟩ := h
  obtain ⟨-, hi, ho⟩ := (executes?_next hm).1 hx
  have hrange := inRange_of_instruction hi
  rw [written_of_some hx, written_of_some hx]
  cases i with
  | storeDecimal x =>
    have hblock : m.index + 3 ≤ memorySize := overrun?_eq_none.1 ho
    have hlt : a < m.index + 3 := Nat.lt_succ_of_le hwrites.2
    exact Bank.cell_fill_congr hwrites.1 hlt (Nat.lt_of_lt_of_le hlt hblock)
  | storeRegisters x =>
    have hblock : m.index + (x + 1) ≤ memorySize := overrun?_eq_none.1 ho
    have hlt : a < m.index + (x + 1) := Nat.lt_succ_of_le hwrites.2
    have hcount : 0 + (x + 1) ≤ 16 := by
      have hx : x < 16 := hrange
      omega
    refine Bank.cell_fill_congr hwrites.1 ?_ (Nat.lt_of_lt_of_le hlt hblock)
    rwa [Bank.length_block hcount]
  | _ => cases hwrites

/-! ## The word that is executed -/

/-- No instruction changes the remembered word. -/
theorem execute_word (hm : m.Valid) (hi : i.InRange) (ho : m.obstacle? i = none) :
    (Work.execute i m).machine.word = m.word := by
  have hword := congrArg Machine.word (execute_eq_adopt hm hi ho)
  cases i <;> exact hword

/-- A step remembers the word at the program counter, whatever comes of it. -/
theorem next_word (hm : m.Valid) (ha : m.activity = .running) (hlt : m.counter + 1 < memorySize) :
    m.next.machine.word = m.current := by
  cases hm.outcome with
  | waits ha' | takes ha' => cases ha.symm.trans ha'
  | stalls _ hi =>
    obtain ⟨hle, -⟩ | ⟨-, hw, -⟩ := instruction_eq_error.1 hi
    · exact absurd hlt (Nat.not_lt.2 hle)
    · rw [next_running ha, Work.cycle_of_invalidWord hlt hw]
  | fails _ _ _ hnext =>
    rw [hnext]
    rfl
  | executes _ hi ho hx =>
    rw [next_machine_of_executes? hm hx]
    exact execute_word hm.fetched (inRange_of_instruction hi) ho

/-! ## Two machines -/

/-- The second machine differs from the first one in memory at most, and there in no cell that a
step may read. -/
structure SameWhereRead (m m' : Machine) : Prop where
  /-- everything but memory is the same -/
  rest : m' = { m with memory := m'.memory }
  /-- memory is the same where a step may read -/
  cells : m.Agrees m'.memory

/-- **Steps read little.** Take two reachable machines that are the same but for memory cells outside
of the word at the program counter and outside of the sixteen cells from the index register on. A
step gives the same result on both, logs the same, and leaves them the same but for memory. Cells
that it overwrites have the same new contents, and the others keep what they had on either side. So
no other cell matters to a step; in particular the word that it executes is the one that is at the
program counter now. -/
theorem next_reads :
    (∀ m m' : Machine, m.Reachable → m'.Reachable → m.SameWhereRead m' →
      m'.next.result = m.next.result ∧ m'.next.log = m.next.log ∧
      m'.executes? .next = m.executes? .next ∧
      m'.next.machine = { m.next.machine with memory := m'.next.machine.memory } ∧
      ∀ a,
        (m.Overwrites a → m'.next.machine.memory.cell a = m.next.machine.memory.cell a) ∧
        (¬ m.Overwrites a → m.next.machine.memory.cell a = m.memory.cell a ∧
          m'.next.machine.memory.cell a = m'.memory.cell a)) ∧
    ∀ m : Machine, m.Reachable →
      (∀ i, m.executes? .next = some i → m.counter + 1 < 4096 ∧
        Instruction.ofWord? (Word.ofBytes (m.memory.cell m.counter)
          (m.memory.cell (m.counter + 1))) = some i) ∧
      (m.activity = .running → m.counter + 1 < 4096 →
        m.next.machine.word =
          Word.ofBytes (m.memory.cell m.counter) (m.memory.cell (m.counter + 1))) := by
  constructor
  · intro m m' hm hm' hsame
    have hnext : m'.next =
        { m.next with machine := m.next.machine.withMemory (m.written m'.memory) } :=
      (congrArg next hsame.rest).trans (next_withMemory hm.valid hsame.cells)
    have hexecutes : m'.executes? .next = m.executes? .next :=
      (congrArg (fun m => m.executes? .next) hsame.rest).trans
        (executes?_withMemory hm.valid hsame.cells)
    have hindex : m'.index = m.index := by rw [hsame.rest]
    refine ⟨by rw [hnext], by rw [hnext], hexecutes, by rw [hnext]; rfl, fun a => ⟨?_, ?_⟩⟩
    · intro hover
      rw [hnext, next_memory hm.valid]
      exact cell_written_of_overwrites hm.valid hover m.memory
    · intro hkept
      refine ⟨next_memory_cell hm.valid ?_, next_memory_cell hm'.valid ?_⟩
      · intro i hx hwrites
        exact hkept ⟨i, hx, hwrites⟩
      · intro i hx hwrites
        rw [hexecutes] at hx
        rw [hindex] at hwrites
        exact hkept ⟨i, hx, hwrites⟩
  · intro m hm
    refine ⟨?_, next_word hm.valid⟩
    intro i hx
    obtain ⟨-, hi, -⟩ := (executes?_next hm.valid).1 hx
    exact instruction_eq_ok.1 hi

/-- Programs of one name differ in memory only once they are loaded. -/
theorem loaded_of_same_name {rom rom' : Rom} (h : rom'.name = rom.name) :
    m.loaded rom' = { m.loaded rom with memory := (m.loaded rom').memory } := by
  rw [loaded, loaded, h]
  rfl

/-- Two programs that begin by storing a register and differ further on. -/
theorem next_reads_store :
    ∃ m m' : Machine, m.Reachable ∧ m'.Reachable ∧ m.SameWhereRead m' ∧
      m'.next.machine.memory.cell 0 = m.next.machine.memory.cell 0 ∧
      m.next.machine.memory.cell 0x202 = 0 ∧ m'.next.machine.memory.cell 0x202 = 7 ∧
      m.next.machine.word = Word.ofBytes 0xF0 0x55 := by
  obtain ⟨m, m', hm, hm', hrest, ha, hcounter, hindex, hlow, hcells, hcells'⟩ :
      ∃ m m' : Machine, m.Reachable ∧ m'.Reachable ∧ m' = { m with memory := m'.memory } ∧
        m.activity = .running ∧ m.counter = programStart ∧ m.index = 0 ∧
        (∀ a < programStart, m'.memory.cell a = m.memory.cell a) ∧
        (∀ i < programLimit, m.memory.cell (programStart + i) = [0xF0, 0x55][i]?.getD 0) ∧
        ∀ i < programLimit, m'.memory.cell (programStart + i) = [0xF0, 0x55, 7][i]?.getD 0 :=
    ⟨(blank .standard .released (.cycle #[])).loaded ⟨"store", [0xF0, 0x55]⟩,
      (blank .standard .released (.cycle #[])).loaded ⟨"store", [0xF0, 0x55, 7]⟩,
      .boot (boot_eq_ok.2 ⟨by decide, rfl⟩), .boot (boot_eq_ok.2 ⟨by decide, rfl⟩),
      loaded_of_same_name rfl, rfl, rfl, rfl,
      fun _ ha => (cell_loaded_of_lt ha).trans (cell_loaded_of_lt ha).symm,
      fun _ hi => cell_loaded hi, fun _ hi => cell_loaded hi⟩
  have hsame : m.SameWhereRead m' := by
    refine ⟨hrest, fun a _ hreads => ?_⟩
    rw [Reads, hcounter, hindex] at hreads
    obtain rfl | rfl | ⟨-, hlt⟩ := hreads
    · exact (hcells' 0 (by decide)).trans (hcells 0 (by decide)).symm
    · exact (hcells' 1 (by decide)).trans (hcells 1 (by decide)).symm
    · exact hlow a (Nat.lt_trans hlt (by decide))
  have hstore : m.executes? .next = some (.storeRegisters 0) := by
    have hi : m.instruction = .ok (.storeRegisters 0) :=
      instruction_of_cells hcounter (by decide) (hcells 0 (by decide)) (hcells 1 (by decide))
    exact (executes?_next hm.valid).2 ⟨ha, hi, overrun?_eq_none.2 hm.valid.index⟩
  have hstores : m.Overwrites 0 :=
    ⟨_, hstore, Nat.le_of_eq hindex, Nat.zero_le _⟩
  have hkept : ¬ m.Overwrites 0x202 := by
    rintro ⟨i, hx, hwrites⟩
    obtain rfl := Option.some.inj (hstore.symm.trans hx)
    have hle : 0x202 ≤ m.index + 0 := hwrites.2
    rw [hindex] at hle
    exact absurd hle (by decide)
  obtain ⟨-, -, -, -, hmemory⟩ := next_reads.1 m m' hm hm' hsame
  obtain ⟨hold, hold'⟩ := (hmemory 0x202).2 hkept
  have hword : m.next.machine.word = Word.ofBytes 0xF0 0x55 := by
    have hhigh : m.memory.cell m.counter = 0xF0 := hcounter ▸ hcells 0 (by decide)
    have hlow : m.memory.cell (m.counter + 1) = 0x55 := hcounter ▸ hcells 1 (by decide)
    rw [(next_reads.2 m hm).2 ha (by rw [hcounter]; decide), hhigh, hlow]
  exact ⟨m, m', hm, hm', hsame, (hmemory 0).1 hstores, hold.trans (hcells 2 (by decide)),
    hold'.trans (hcells' 2 (by decide)), hword⟩

end Machine

end SpriteVM
