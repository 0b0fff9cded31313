import SpriteVM.Proofs.Meaning

/-!
# The laws of a step

What a step leads to from a valid machine. `Machine.Valid` is the invariant: addresses lie in
memory, the stack is not too deep, an awaited key has a register. `Machine.obstacle?` is the reason,
if there is one, why an instruction cannot be carried out; it looks at the machine only. The two
outcomes of an instruction are then

* with an obstacle it fails with that error and everything stays as it was
  (`execute_of_obstacle`);
* without one it succeeds, and the machine is valid afterwards (`execute_of_no_obstacle`).

The same pair of laws follows for `Work.perform`. A step from a running machine then depends on
`Machine.instruction`: either there is none at the program counter, or the step performs it.
-/

namespace SpriteVM

/-- An error that a program can bring about. -/
def StepError.Typed (e : StepError) : Prop :=
  ∀ cause, e ≠ .fault cause

/-! ## The invariant -/

namespace Machine

/-- What is true of every machine that a host can bring about. -/
structure Valid (m : Machine) : Prop where
  /-- the program counter is an address -/
  counter : m.counter < memorySize
  /-- the index register is an address -/
  index : m.index < memorySize
  /-- the stack is not too deep -/
  depth : m.stack.length ≤ stackLimit
  /-- return addresses are addresses -/
  stack : ∀ a ∈ m.stack, a < memorySize
  /-- an awaited key goes into a register -/
  awaited : ∀ r, m.activity = .awaitingKey r → r < 16

/-- The second machine is valid, and its display has the size of that of the first one. -/
structure Keeps (m m' : Machine) : Prop where
  /-- the second machine is valid -/
  valid : m'.Valid
  /-- the display has its width -/
  width : m'.display.width = m.display.width
  /-- the display has its height -/
  height : m'.display.height = m.display.height

theorem Valid.keeps {m : Machine} (hm : m.Valid) : m.Keeps m :=
  ⟨hm, rfl, rfl⟩

theorem Keeps.trans {a b c : Machine} (h₁ : a.Keeps b) (h₂ : b.Keeps c) : a.Keeps c :=
  ⟨h₂.valid, h₂.width.trans h₁.width, h₂.height.trans h₁.height⟩

end Machine

/-- The stack after an instruction that succeeds with the program counter at `counter`. -/
def Instruction.stackAfter (i : Instruction) (counter : Nat) (stack : List Nat) : List Nat :=
  match i with
  | .call _ => counter :: stack
  | .ret => stack.tail
  | _ => stack

namespace Machine

/-- What executing an instruction upholds: besides, the program counter stays and only calls and
returns move the stack. -/
structure Settled (i : Instruction) (m m' : Machine) : Prop extends Keeps m m' where
  /-- the program counter stays -/
  counter : m'.counter = m.counter
  /-- the stack moves with calls and returns only -/
  stack : m'.stack = i.stackAfter m.counter m.stack

/-- What a machine that differs in other fields only has to show. -/
theorem Valid.settled {i : Instruction} {m m' : Machine} (hm : m.Valid)
    (hc : m'.counter = m.counter) (hi : m'.index = m.index) (hs : m'.stack = m.stack)
    (ha : m'.activity = m.activity) (hw : m'.display.width = m.display.width)
    (hh : m'.display.height = m.display.height)
    (hstack : i.stackAfter m.counter m.stack = m.stack) : m.Settled i m' where
  valid := {
    counter := hc ▸ hm.counter
    index := hi ▸ hm.index
    depth := hs ▸ hm.depth
    stack := hs ▸ hm.stack
    awaited := ha ▸ hm.awaited }
  width := hw
  height := hh
  counter := hc
  stack := hs.trans hstack.symm

theorem Valid.setIndex {m : Machine} (hm : m.Valid) {index : Nat} (hi : index < memorySize) :
    m.Keeps { m with index } :=
  ⟨⟨hm.counter, hi, hm.depth, hm.stack, hm.awaited⟩, rfl, rfl⟩

theorem Valid.setStack {m : Machine} (hm : m.Valid) {stack : List Nat}
    (hd : stack.length ≤ stackLimit) (hs : ∀ a ∈ stack, a < memorySize) :
    m.Keeps { m with stack } :=
  ⟨⟨hm.counter, hm.index, hd, hs, hm.awaited⟩, rfl, rfl⟩

theorem Valid.setActivity {m : Machine} (hm : m.Valid) {activity : Activity}
    (ha : ∀ r, activity = .awaitingKey r → r < 16) : m.Keeps { m with activity } :=
  ⟨⟨hm.counter, hm.index, hm.depth, hm.stack, ha⟩, rfl, rfl⟩

theorem Valid.setCounter {m : Machine} (hm : m.Valid) {counter : Nat} (hc : counter < memorySize) :
    ({ m with counter } : Machine).Valid :=
  ⟨hc, hm.index, hm.depth, hm.stack, hm.awaited⟩

/-! ## Obstacles -/

/-- The error of an access to memory at the index register, if it leaves memory. -/
def overrun? (m : Machine) (count : Nat) : Option StepError :=
  if memorySize < m.index + count then some (.outOfBounds m.index count) else none

/-- Why an instruction cannot be carried out. -/
def obstacle? (m : Machine) : Instruction → Option StepError
  | .call _ => if m.stack.length = stackLimit then some .stackFull else none
  | .ret => if m.stack = [] then some .stackEmpty else none
  | .draw _ _ n => m.overrun? n
  | .storeDecimal _ => m.overrun? 3
  | .storeRegisters x | .loadRegisters x => m.overrun? (x + 1)
  | _ => none

theorem overrun?_eq_some {m : Machine} {count : Nat} {e : StepError} :
    m.overrun? count = some e ↔ memorySize < m.index + count ∧ e = .outOfBounds m.index count := by
  simp only [overrun?, Option.ite_none_right_eq_some, Option.some.injEq, eq_comm (b := e)]

theorem overrun?_eq_none {m : Machine} {count : Nat} :
    m.overrun? count = none ↔ m.index + count ≤ memorySize := by
  rw [overrun?]
  split <;> simp <;> omega

/-- A call that meets no obstacle finds room for its return address. -/
theorem length_stack_ne {m : Machine} {nnn : Nat} (h : m.obstacle? (.call nnn) = none) :
    m.stack.length ≠ stackLimit := by
  intro hfull
  rw [obstacle?, if_pos hfull] at h
  cases h

/-- A return that meets no obstacle finds a return address. -/
theorem stack_ne_nil {m : Machine} (h : m.obstacle? .ret = none) : m.stack ≠ [] := by
  intro hnil
  rw [obstacle?, if_pos hnil] at h
  cases h

/-- Every obstacle is an error that a program can bring about. -/
theorem typed_of_obstacle? {m : Machine} {i : Instruction} {e : StepError}
    (h : m.obstacle? i = some e) : e.Typed := by
  rintro cause rfl
  cases i with
  | call nnn | ret =>
    obtain ⟨-, ⟨⟩⟩ := Option.ite_none_right_eq_some.1 h
  | draw x y n | storeDecimal x | storeRegisters x | loadRegisters x =>
    obtain ⟨-, ⟨⟩⟩ := overrun?_eq_some.1 h
  | _ => cases h

end Machine

theorem wrap_lt (a : Nat) : wrap a < memorySize := by
  simp only [wrap, memorySize]
  omega

namespace Work

variable {m : Machine}

/-! ## Executing -/

/-- An instruction that meets an obstacle fails, and nothing is written and nothing logged. -/
theorem execute_of_obstacle {i : Instruction} {e : StepError} (hm : m.Valid) (hi : i.InRange)
    (h : m.obstacle? i = some e) : execute i m = { machine := m, result := .error e } := by
  cases i with
  | call nnn =>
    obtain ⟨hfull, ⟨⟩⟩ := Option.ite_none_right_eq_some.1 h
    exact execute_call_full hfull
  | ret =>
    obtain ⟨hnil, ⟨⟩⟩ := Option.ite_none_right_eq_some.1 h
    exact execute_ret_nil hnil
  | draw x y n =>
    obtain ⟨hx, hy, hn⟩ := hi
    obtain ⟨hover, rfl⟩ := Machine.overrun?_eq_some.1 h
    exact execute_draw_outOfBounds hx hy hm.index (Nat.le_trans (Nat.le_of_lt hn) (by decide)) hover
  | storeDecimal x =>
    obtain ⟨hover, rfl⟩ := Machine.overrun?_eq_some.1 h
    exact execute_storeDecimal_outOfBounds hm.index hover
  | storeRegisters x =>
    obtain ⟨hover, rfl⟩ := Machine.overrun?_eq_some.1 h
    exact execute_storeRegisters_outOfBounds hi hm.index hover
  | loadRegisters x =>
    obtain ⟨hover, rfl⟩ := Machine.overrun?_eq_some.1 h
    exact execute_loadRegisters_outOfBounds hi hm.index hover
  | _ => cases h

/-- An instruction that meets no obstacle succeeds. -/
theorem execute_of_no_obstacle {i : Instruction} (hm : m.Valid) (hi : i.InRange)
    (h : m.obstacle? i = none) :
    ∃ m' effect log, execute i m = { machine := m', result := .ok effect, log } ∧
      m.Settled i m' := by
  cases i with
  -- first the instructions that write no field of the invariant
  | sys nnn => exact ⟨_, _, _, execute_sys nnn, hm.settled rfl rfl rfl rfl rfl rfl rfl⟩
  | jump nnn => exact ⟨_, _, _, execute_jump nnn, hm.settled rfl rfl rfl rfl rfl rfl rfl⟩
  | jumpOffset nnn => exact ⟨_, _, _, execute_jumpOffset hi, hm.settled rfl rfl rfl rfl rfl rfl rfl⟩
  | skip c => exact ⟨_, _, _, execute_skip hi, hm.settled rfl rfl rfl rfl rfl rfl rfl⟩
  | clear => exact ⟨_, _, _, execute_clear, hm.settled rfl rfl rfl rfl rfl rfl rfl⟩
  | loadByte x kk => exact ⟨_, _, _, execute_loadByte hi kk, hm.settled rfl rfl rfl rfl rfl rfl rfl⟩
  | addByte x kk => exact ⟨_, _, _, execute_addByte hi kk, hm.settled rfl rfl rfl rfl rfl rfl rfl⟩
  | random x kk => exact ⟨_, _, _, execute_random hi kk, hm.settled rfl rfl rfl rfl rfl rfl rfl⟩
  | combine op x y =>
    exact ⟨_, _, _, execute_combine hi.1 hi.2, hm.settled rfl rfl rfl rfl rfl rfl rfl⟩
  | readDelay x => exact ⟨_, _, _, execute_readDelay hi, hm.settled rfl rfl rfl rfl rfl rfl rfl⟩
  | setDelay x => exact ⟨_, _, _, execute_setDelay hi, hm.settled rfl rfl rfl rfl rfl rfl rfl⟩
  | setSound x => exact ⟨_, _, _, execute_setSound hi, hm.settled rfl rfl rfl rfl rfl rfl rfl⟩
  -- then those that write the index register or wait for a key
  | loadIndex nnn => exact ⟨_, _, _, execute_loadIndex nnn, hm.setIndex hi, rfl, rfl⟩
  | addIndex x => exact ⟨_, _, _, execute_addIndex hi hm.index, hm.setIndex (wrap_lt _), rfl, rfl⟩
  | loadGlyph x =>
    have hglyph : Glyph.location + (m.registers.cell x).toNat * Glyph.height < memorySize := by
      have hv := (m.registers.cell x).toNat_lt
      simp only [Glyph.location, Glyph.height, memorySize]
      omega
    exact ⟨_, _, _, execute_loadGlyph hi, hm.setIndex hglyph, rfl, rfl⟩
  | waitKey x =>
    refine ⟨_, _, _, execute_waitKey x, hm.setActivity ?_, rfl, rfl⟩
    rintro r ⟨⟩
    exact hi
  -- then those that move the stack
  | ret =>
    obtain ⟨address, stack, hs⟩ := List.exists_cons_of_ne_nil (Machine.stack_ne_nil h)
    have hd := hm.depth
    have ha := hm.stack
    rw [hs] at hd ha
    exact ⟨_, _, _, execute_ret_cons hs,
      hm.setStack (Nat.le_of_succ_le hd) fun a h => ha a (List.mem_cons_of_mem _ h), rfl,
      by rw [Instruction.stackAfter, hs, List.tail_cons]⟩
  | call nnn =>
    have hroom := Machine.length_stack_ne h
    refine ⟨_, _, _, execute_call hroom, hm.setStack ?_ ?_, rfl, rfl⟩
    · exact Nat.lt_of_le_of_ne hm.depth hroom
    · intro a ha
      rcases List.mem_cons.1 ha with rfl | ha
      · exact hm.counter
      · exact hm.stack a ha
  -- last those that need a block at the index register
  | draw x y n =>
    obtain ⟨hx, hy, -⟩ := hi
    exact ⟨_, _, _, execute_draw hx hy (Machine.overrun?_eq_none.1 h),
      hm.settled rfl rfl rfl rfl rfl rfl rfl⟩
  | storeDecimal x =>
    exact ⟨_, _, _, execute_storeDecimal hi (Machine.overrun?_eq_none.1 h),
      hm.settled rfl rfl rfl rfl rfl rfl rfl⟩
  | storeRegisters x =>
    exact ⟨_, _, _, execute_storeRegisters hi (Machine.overrun?_eq_none.1 h),
      hm.settled rfl rfl rfl rfl rfl rfl rfl⟩
  | loadRegisters x =>
    exact ⟨_, _, _, execute_loadRegisters hi (Machine.overrun?_eq_none.1 h),
      hm.settled rfl rfl rfl rfl rfl rfl rfl⟩

/-! ## Performing -/

theorem perform_of_obstacle {i : Instruction} {e : StepError} (hm : m.Valid) (hi : i.InRange)
    (h : m.obstacle? i = some e) : perform i m = { machine := m, result := .error e } := by
  have hx := execute_of_obstacle hm hi h
  rw [perform, bind_of_error (by rw [hx]), hx]

/-- The program counter moves as the effect says after the instruction is executed. -/
theorem perform_of_execute {i : Instruction} {m' : Machine} {effect : Effect} {log : List Message}
    (h : execute i m = { machine := m', result := .ok effect, log })
    (hm' : m'.counter < memorySize) :
    perform i m =
      { machine := { m' with counter := target m'.counter effect.flow }
        result := .ok effect.hint
        log } := by
  rw [perform, bind_of_ok (by rw [h]), h, bind_of_apply (follow_apply hm' effect.flow)]
  simp only [pure_apply, List.append_nil]

theorem target_lt (counter : Nat) (flow : Flow) : target counter flow < memorySize := by
  cases flow <;> exact wrap_lt _

theorem perform_of_no_obstacle {i : Instruction} (hm : m.Valid) (hi : i.InRange)
    (h : m.obstacle? i = none) :
    ∃ m' effect log, execute i m = { machine := m', result := .ok effect, log } ∧
      m.Settled i m' ∧
      perform i m =
        { machine := { m' with counter := target m.counter effect.flow }
          result := .ok effect.hint
          log } := by
  obtain ⟨m', effect, log, hx, hs⟩ := execute_of_no_obstacle hm hi h
  refine ⟨m', effect, log, hx, hs, ?_⟩
  rw [perform_of_execute hx hs.valid.counter, hs.counter]

end Work

/-! ## Fetching -/

/-- There is a word at every address but the last one. -/
theorem Word.at?_of_lt {memory : Memory} {a : Nat} (h : a + 1 < memorySize) :
    Word.at? memory.cells.toArray a = some (Word.ofBytes (memory.cell a) (memory.cell (a + 1))) := by
  simp only [Word.at?, Bank.getElem?_toArray, Bank.get?_eq_some h,
    Bank.get?_eq_some (Nat.lt_of_succ_lt h)]
  rfl

theorem Word.at?_of_le {memory : Memory} {a : Nat} (h : memorySize ≤ a + 1) :
    Word.at? memory.cells.toArray a = none := by
  have hlow : memory.get? (a + 1) = none := by
    rw [← Option.not_isSome_iff_eq_none, Bank.get?_isSome]
    exact Nat.not_lt.2 h
  simp only [Word.at?, Bank.getElem?_toArray, hlow]
  cases memory.get? a <;> rfl

namespace Machine

variable {m : Machine}

/-- The word at the program counter. -/
def current (m : Machine) : Word :=
  Word.ofBytes (m.memory.cell m.counter) (m.memory.cell (m.counter + 1))

/-- The machine while the word that it fetched is executed: the word is remembered and the program
counter is past it. -/
def fetched (m : Machine) : Machine :=
  { m with word := m.current, counter := wrap (m.counter + wordSize) }

theorem Valid.fetched (hm : m.Valid) : m.fetched.Valid :=
  ⟨wrap_lt _, hm.index, hm.depth, hm.stack, hm.awaited⟩

theorem fetch_of_lt (h : m.counter + 1 < memorySize) :
    fetch m.memory.cells.toArray m.counter = .ok m.current := by
  rw [fetch, Word.at?_of_lt h]
  rfl

theorem fetch_of_le (h : memorySize ≤ m.counter + 1) :
    fetch m.memory.cells.toArray m.counter = .error (.noWord m.counter memorySize) := by
  simp only [fetch, Word.at?_of_le h, Vector.size_toArray]

/-- The instruction at the program counter, or why there is none. -/
def instruction (m : Machine) : Except StepError Instruction := do
  decode (← fetch m.memory.cells.toArray m.counter)

/-- The instruction at the program counter depends on memory and the program counter only. -/
theorem instruction_congr {m' : Machine} (hmem : m'.memory = m.memory)
    (hc : m'.counter = m.counter) : m'.instruction = m.instruction := by
  rw [instruction, hmem, hc, instruction]

theorem instruction_of_le (h : memorySize ≤ m.counter + 1) :
    m.instruction = .error (.noWord m.counter memorySize) := by
  rw [instruction, fetch_of_le h]
  rfl

theorem instruction_of_lt (h : m.counter + 1 < memorySize) : m.instruction = decode m.current := by
  rw [instruction, fetch_of_lt h]
  rfl

/-- The instruction at the program counter is that of the two bytes there. -/
theorem instruction_of_cells {a : Nat} {high low : UInt8} (hc : m.counter = a)
    (ha : a + 1 < memorySize) (hhigh : m.memory.cell a = high)
    (hlow : m.memory.cell (a + 1) = low) : m.instruction = decode (Word.ofBytes high low) := by
  subst hc
  rw [instruction_of_lt ha, current, hhigh, hlow]

theorem instruction_eq_ok {i : Instruction} :
    m.instruction = .ok i ↔
      m.counter + 1 < memorySize ∧ Instruction.ofWord? m.current = some i := by
  by_cases h : m.counter + 1 < memorySize
  · rw [instruction_of_lt h, decode_eq_ok, and_iff_right h]
  · simp [instruction_of_le (Nat.not_lt.1 h), h]

theorem instruction_eq_error {e : StepError} :
    m.instruction = .error e ↔
      memorySize ≤ m.counter + 1 ∧ e = .noWord m.counter memorySize ∨
      m.counter + 1 < memorySize ∧ Instruction.ofWord? m.current = none ∧
        e = .invalidWord m.current := by
  by_cases h : m.counter + 1 < memorySize
  · simp only [instruction_of_lt h, decode_eq_error, Nat.not_le.2 h, h, false_and, true_and, false_or]
  · simp [instruction_of_le (Nat.not_lt.1 h), h, Nat.not_lt.1 h, eq_comm]

end Machine

namespace Work

variable {m : Machine}

/-! ## The outcomes of a step -/

/-- Where there is no word there is none to remember. -/
theorem cycle_of_noWord (h : memorySize ≤ m.counter + 1) :
    cycle m = { machine := m, result := .error (.noWord m.counter memorySize) } := by
  simp only [cycle, fetchWord, bind_assoc, look_bind_apply, Machine.fetch_of_le h, settle_error,
    fail_bind, fail_apply]

/-- A word is remembered before it fails to decode. -/
theorem cycle_of_invalidWord (hlt : m.counter + 1 < memorySize)
    (hw : Instruction.ofWord? m.current = none) :
    cycle m =
      { machine := { m with word := m.current }, result := .error (.invalidWord m.current) } := by
  simp only [cycle, fetchWord, bind_assoc, look_bind_apply, Machine.fetch_of_lt hlt, settle_ok,
    pure_bind, change_bind_apply, decode, hw, settle_error, fail_bind, fail_apply]

/-- Without an instruction a step fails, and at most the word that was fetched is remembered. -/
theorem cycle_of_error {e : StepError} (h : m.instruction = .error e) :
    ∃ word, cycle m = { machine := { m with word }, result := .error e } := by
  rcases Machine.instruction_eq_error.1 h with ⟨hle, rfl⟩ | ⟨hlt, hw, rfl⟩
  · exact ⟨m.word, cycle_of_noWord hle⟩
  · exact ⟨m.current, cycle_of_invalidWord hlt hw⟩

/-- An instruction is logged and performed with the program counter past it. -/
theorem cycle_of_ok {i : Instruction} (h : m.instruction = .ok i) :
    cycle m =
      { perform i m.fetched with
        log := .executing m.counter m.current i :: (perform i m.fetched).log } := by
  obtain ⟨hlt, hw⟩ := Machine.instruction_eq_ok.1 h
  have hadvance := advance_apply (m := { m with word := m.current }) (Nat.lt_of_succ_lt hlt)
  simp only [cycle, fetchWord, bind_assoc, look_bind_apply, Machine.fetch_of_lt hlt, settle_ok,
    pure_bind, change_bind_apply, decode, hw, say_bind_apply, bind_of_apply hadvance]
  rfl

/-! ## Polling -/

/-- No key is found, and nothing changes. -/
theorem poll_of_none {register : Nat} (h : m.keyboard.lowest? = none) :
    poll register m = { machine := m, result := .ok .wait } := by
  simp only [poll, look_bind_apply, h, pure_apply]

/-- A key is found. -/
theorem poll_of_some {register key : Nat} (hr : register < 16) (h : m.keyboard.lowest? = some key) :
    poll register m =
      { machine :=
          { m with
            registers := m.registers.put register (UInt8.ofNat key)
            activity := .running }
        result := .ok .idle
        log := [.keyStored key register] } := by
  simp only [poll, look_bind_apply, h, setRegister_eq_change hr, say_bind_apply, change_bind_apply,
    pure_apply]

end Work

end SpriteVM
