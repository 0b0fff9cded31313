import SpriteVM.Proofs.Hints

/-!
# Where a step goes

The program counter after a step that executes an instruction. `Machine.flow` is how an instruction
leaves it (`execute_flow`), and `Machine.GoesTo` is the law in terms of the word at the program
counter: jumps, calls and returns go where they say, a skip whose condition holds passes over a
word, and everything else goes on with the next word. `Machine.Skips` lists the conditions.

Every condition has an opposite one, so of two skips with the same operands exactly one passes over
a word (`holds_opposite`). `next_goes` collects this.
-/

namespace SpriteVM

/-- The condition that holds when this one does not. -/
def Condition.opposite : Condition → Condition
  | .equalByte x kk => .unequalByte x kk
  | .unequalByte x kk => .equalByte x kk
  | .equal x y => .unequal x y
  | .unequal x y => .equal x y
  | .keyDown x => .keyUp x
  | .keyUp x => .keyDown x

theorem Condition.InRange.opposite {c : Condition} (h : c.InRange) : c.opposite.InRange := by
  cases c <;> exact h

namespace Machine

variable {m m' : Machine} {i : Instruction} {w : Word}

/-! ## Conditions -/

theorem holds_opposite (m : Machine) (c : Condition) : m.holds c.opposite = !m.holds c := by
  cases c with
  | equalByte x kk | equal x y | keyDown x => rfl
  | unequalByte x kk | unequal x y | keyUp x => exact (Bool.not_not _).symm

/-- A condition looks at the registers and the keyboard. -/
theorem holds_congr (hregisters : m'.registers = m.registers) (hkeyboard : m'.keyboard = m.keyboard)
    (c : Condition) : m'.holds c = m.holds c := by
  cases c <;> simp only [holds, hregisters, hkeyboard]

/-- The word is a conditional skip whose condition holds. A number that names no key is never
down. -/
def Skips (m : Machine) (w : Word) : Prop :=
  let vx := m.registers.cell w.x
  let vy := m.registers.cell w.y
  w.fits "3xkk" ∧ vx = w.kk ∨ w.fits "4xkk" ∧ vx ≠ w.kk ∨
    w.fits "5xy0" ∧ vx = vy ∨ w.fits "9xy0" ∧ vx ≠ vy ∨
    w.fits "Ex9E" ∧ m.keyboard.isDown vx.toNat ∨ w.fits "ExA1" ∧ ¬ m.keyboard.isDown vx.toNat

theorem skips_iff (h : Instruction.ofWord? w = some i) :
    m.Skips w ↔ ∃ c, i = .skip c ∧ m.holds c = true := by
  have hc := Instruction.codes_of_ofWord? h
  have hfits : ∀ p ∈ Instruction.patterns, p ≠ "0nnn" → (w.fits p ↔ i.pattern = p) :=
    fun _ hp hne => Instruction.fits_iff_pattern_eq h hp hne
  simp only [Skips]
  rw [hfits "3xkk" (by simp [Instruction.patterns]) (by simp),
    hfits "4xkk" (by simp [Instruction.patterns]) (by simp),
    hfits "5xy0" (by simp [Instruction.patterns]) (by simp),
    hfits "9xy0" (by simp [Instruction.patterns]) (by simp),
    hfits "Ex9E" (by simp [Instruction.patterns]) (by simp),
    hfits "ExA1" (by simp [Instruction.patterns]) (by simp)]
  cases i with
  | combine op x y => cases op <;> simp [Instruction.pattern, Alu.pattern]
  | skip c =>
    cases c <;> obtain ⟨-, hc⟩ := hc <;>
      simp [Instruction.pattern, Condition.pattern, holds, hc]
  | _ => simp [Instruction.pattern]

/-! ## Instructions -/

/-- How an instruction that is executed leaves the program counter. -/
def flow (m : Machine) : Instruction → Flow
  | .jump nnn | .call nnn => .jump nnn
  | .jumpOffset nnn => .jump (nnn + (m.registers.cell 0).toNat)
  | .ret => .jump (m.stack.headD 0)
  | .skip c => .skipIf (m.holds c)
  | _ => .next

/-- An instruction that succeeds says how the program counter goes on. -/
theorem execute_flow {effect : Effect} (hi : i.InRange) (ho : m.obstacle? i = none)
    (h : (Work.execute i m).result = .ok effect) : effect.flow = m.flow i := by
  cases i with
  | jump nnn =>
    cases h
    rfl
  | call nnn =>
    rw [Work.execute_call (length_stack_ne ho)] at h
    cases h
    rfl
  | ret =>
    obtain ⟨address, stack, hs⟩ := List.exists_cons_of_ne_nil (stack_ne_nil ho)
    rw [Work.execute_ret_cons hs] at h
    cases h
    rw [flow, hs, List.headD_cons]
  | jumpOffset nnn =>
    rw [Work.execute_jumpOffset hi] at h
    cases h
    rfl
  | skip c =>
    rw [Work.execute_skip hi] at h
    cases h
    rfl
  -- the others go on with the next word, whatever the machine is
  | addByte x kk | readDelay x | setDelay x | setSound x =>
    exact Work.Gives.bind (p := fun effect => effect.flow = .next)
      (fun _ => .bind fun _ => .pure rfl) m effect h
  | _ =>
    exact Work.Gives.bind (p := fun effect => effect.flow = .next) (fun _ => .pure rfl) m effect h

/-! ## Steps -/

/-- A step that executes an instruction moves the program counter as that instruction says. -/
theorem next_counter (hm : m.Valid) (h : m.executes? .next = some i) :
    m.next.machine.counter = Work.target m.fetched.counter (m.flow i) := by
  obtain ⟨ha, hi, ho⟩ := (executes?_next hm).1 h
  obtain ⟨m', effect, log, hwork, -, hnext⟩ := next_of_no_obstacle hm ha hi ho
  have hflow : effect.flow = m.fetched.flow i :=
    execute_flow (inRange_of_instruction hi) ho (congrArg Turn.result hwork)
  -- the flow does not depend on the program counter
  have hfetched : m.fetched.flow i = m.flow i := by cases i <;> rfl
  rw [hnext, hflow, hfetched]

/-- The next word is two bytes further. -/
theorem target_next (m : Machine) :
    Work.target m.fetched.counter .next = (m.counter + 2) % 4096 :=
  Nat.mod_mod ..

/-- The word after the next one is four bytes further. -/
theorem target_skip (m : Machine) :
    Work.target m.fetched.counter .skip = (m.counter + 4) % 4096 := by
  simp only [Work.target, fetched, wrap, wordSize, memorySize]
  omega

/-- Where a step goes that leads from the first machine to the second one, by the pattern of the
word that it executes. -/
structure GoesTo (m : Machine) (w : Word) (m' : Machine) : Prop where
  /-- a jump or a call goes to its address -/
  jump : w.fits "1nnn" ∨ w.fits "2nnn" → m'.counter = w.nnn
  /-- a jump with an offset goes that much further -/
  offset : w.fits "Bnnn" → m'.counter = (w.nnn + (m.registers.cell 0).toNat) % 4096
  /-- a return goes to the entry that it takes off the stack -/
  ret : w.fits "00EE" → m.stack = m'.counter :: m'.stack
  /-- a skip whose condition holds passes over a word -/
  skip : m.Skips w → m'.counter = (m.counter + 4) % 4096
  /-- everything else goes on with the next word -/
  next : ¬ w.fits "1nnn" → ¬ w.fits "2nnn" → ¬ w.fits "Bnnn" → ¬ w.fits "00EE" → ¬ m.Skips w →
    m'.counter = (m.counter + 2) % 4096

/-- **Step lemma.** A step that executes an instruction goes where its word says. -/
theorem next_goesTo (hm : m.Valid) (h : m.executes? .next = some i) :
    m.GoesTo m.current m.next.machine := by
  obtain ⟨ha, hi, ho⟩ := (executes?_next hm).1 h
  have hw := (instruction_eq_ok.1 hi).2
  have hcounter := next_counter hm h
  have hjump : m.current.fits "1nnn" ↔ i = .jump m.current.nnn :=
    Instruction.fits_iff_eq_fill (j := .jump 0) hw (by decide)
  have hcall : m.current.fits "2nnn" ↔ i = .call m.current.nnn :=
    Instruction.fits_iff_eq_fill (j := .call 0) hw (by decide)
  have hoffset : m.current.fits "Bnnn" ↔ i = .jumpOffset m.current.nnn :=
    Instruction.fits_iff_eq_fill (j := .jumpOffset 0) hw (by decide)
  have hret : m.current.fits "00EE" ↔ i = .ret :=
    Instruction.fits_iff_eq_fill (j := .ret) hw (by decide)
  have haddress : wrap m.current.nnn = m.current.nnn := Nat.mod_eq_of_lt m.current.nnn_lt
  constructor
  case jump =>
    rintro (hfit | hfit)
    · obtain rfl := hjump.1 hfit
      exact hcounter.trans haddress
    · obtain rfl := hcall.1 hfit
      exact hcounter.trans haddress
  case offset =>
    intro hfit
    obtain rfl := hoffset.1 hfit
    exact hcounter
  case ret =>
    intro hfit
    obtain rfl := hret.1 hfit
    obtain ⟨address, stack, hs⟩ := List.exists_cons_of_ne_nil (stack_ne_nil (m := m.fetched) ho)
    rw [next_ret hm ha hi hs]
    exact hs
  case skip =>
    intro hskips
    obtain ⟨c, rfl, hholds⟩ := (skips_iff hw).1 hskips
    rw [hcounter, flow, hholds]
    exact target_skip m
  case next =>
    intro hjump' hcall' hoffset' hret' hskips
    rw [hjump] at hjump'
    rw [hcall] at hcall'
    rw [hoffset] at hoffset'
    rw [hret] at hret'
    rw [skips_iff hw] at hskips
    have hcodes := Instruction.codes_of_ofWord? hw
    have hflow : m.flow i = .next := by
      cases i with
      | jump nnn => exact absurd (congrArg Instruction.jump hcodes.2) hjump'
      | call nnn => exact absurd (congrArg Instruction.call hcodes.2) hcall'
      | jumpOffset nnn => exact absurd (congrArg Instruction.jumpOffset hcodes.2) hoffset'
      | ret => exact absurd rfl hret'
      | skip c =>
        have hfails : m.holds c = false := by
          rw [← Bool.not_eq_true]
          exact fun hholds => hskips ⟨c, rfl, hholds⟩
        rw [flow, hfails]
        rfl
      | _ => rfl
    rw [hcounter, hflow]
    exact target_next m

/-- A step that succeeds on a running machine executes an instruction. -/
theorem exists_executes? (hm : m.Valid) (ha : m.activity = .running)
    (h : ∃ hint, m.next.result = .ok hint) : ∃ i, m.executes? .next = some i := by
  obtain ⟨hint, hok⟩ := h
  cases hm.outcome with
  | waits ha' | takes ha' => cases ha.symm.trans ha'
  | stalls _ _ _ hnext | fails _ _ _ hnext =>
    rw [hnext] at hok
    cases hok
  | executes _ _ _ hx => exact ⟨_, hx⟩

/-- A step that meets a skip executes it. -/
theorem next_counter_skip {c : Condition} (hm : m.Valid) (ha : m.activity = .running)
    (hi : m.instruction = .ok (.skip c)) :
    m.next.machine.counter =
      if m.holds c then (m.counter + 4) % 4096 else (m.counter + 2) % 4096 := by
  rw [next_counter hm ((executes?_next hm).2 ⟨ha, hi, rfl⟩), flow]
  cases m.holds c with
  | true => exact target_skip m
  | false => exact target_next m

/-- A skip that is performed on its own moves the program counter past a word or not at all. -/
theorem perform_skip {c : Condition} (hm : m.Valid) (hc : c.InRange) :
    (Work.perform (.skip c) m).machine.counter =
      if m.holds c then (m.counter + 2) % 4096 else m.counter := by
  rw [Work.perform_of_execute (Work.execute_skip hc) hm.counter]
  cases m.holds c with
  | true => rfl
  | false => exact Nat.mod_eq_of_lt hm.counter

/-- A register that names no key makes the one key test fail and the other one hold. -/
theorem next_counter_no_key (hm : m.Valid) (h : m.executes? .next = some i)
    (hkey : 0xF < (m.registers.cell m.current.x).toNat) :
    (m.current.fits "Ex9E" → m.next.machine.counter = (m.counter + 2) % 4096) ∧
    (m.current.fits "ExA1" → m.next.machine.counter = (m.counter + 4) % 4096) := by
  obtain ⟨ha, hi, -⟩ := (executes?_next hm).1 h
  have hw := (instruction_eq_ok.1 hi).2
  have hup : m.keyboard.isDown (m.registers.cell m.current.x).toNat = false :=
    Keyboard.isDown_of_size_le hkey
  constructor
  · intro hfit
    obtain rfl : i = .skip (.keyDown m.current.x) :=
      (Instruction.fits_iff_eq_fill (j := .skip (.keyDown 0)) hw (by decide)).1 hfit
    rw [next_counter_skip hm ha hi, holds, hup]
    rfl
  · intro hfit
    obtain rfl : i = .skip (.keyUp m.current.x) :=
      (Instruction.fits_iff_eq_fill (j := .skip (.keyUp 0)) hw (by decide)).1 hfit
    rw [next_counter_skip hm ha hi, holds, hup]
    rfl

/-- Of two skips on opposite conditions that are met alike one passes over a word and the other one
does not. -/
theorem next_counter_opposite {c : Condition} (hm : m.Valid) (hm' : m'.Valid)
    (ha : m.activity = .running) (ha' : m'.activity = .running)
    (hi : m.instruction = .ok (.skip c)) (hi' : m'.instruction = .ok (.skip c.opposite))
    (hregisters : m'.registers = m.registers) (hkeyboard : m'.keyboard = m.keyboard)
    (hcounter : m'.counter = m.counter) :
    m.next.machine.counter = (m.counter + 4) % 4096 ∧
      m'.next.machine.counter = (m.counter + 2) % 4096 ∨
    m.next.machine.counter = (m.counter + 2) % 4096 ∧
      m'.next.machine.counter = (m.counter + 4) % 4096 := by
  rw [next_counter_skip hm ha hi, next_counter_skip hm' ha' hi',
    holds_congr hregisters hkeyboard, holds_opposite, hcounter]
  cases m.holds c with
  | true => exact .inl ⟨rfl, rfl⟩
  | false => exact .inr ⟨rfl, rfl⟩

/-- **Every step goes where its word says.** After a step of a running machine that succeeds the
program counter is where `GoesTo` says for the word that was at the program counter before. A
register that names no key counts as a key that is not down. Two skips with the same operands and
opposite conditions, met with the same registers and keys, always go different ways. -/
theorem next_goes :
    (∀ m : Machine, m.Reachable → m.activity = .running → (∃ hint, m.next.result = .ok hint) →
      m.counter + 1 < 4096 ∧ m.GoesTo m.current m.next.machine ∧
      (0xF < (m.registers.cell m.current.x).toNat →
        (m.current.fits "Ex9E" → m.next.machine.counter = (m.counter + 2) % 4096) ∧
        (m.current.fits "ExA1" → m.next.machine.counter = (m.counter + 4) % 4096))) ∧
    (∀ (m m' : Machine) (c : Condition), m.Reachable → m'.Reachable → m.activity = .running →
      m'.activity = .running → m.instruction = .ok (.skip c) →
      m'.instruction = .ok (.skip c.opposite) → m'.registers = m.registers →
      m'.keyboard = m.keyboard → m'.counter = m.counter →
      m.next.machine.counter = (m.counter + 4) % 4096 ∧
        m'.next.machine.counter = (m.counter + 2) % 4096 ∨
      m.next.machine.counter = (m.counter + 2) % 4096 ∧
        m'.next.machine.counter = (m.counter + 4) % 4096) ∧
    ∀ (m : Machine) (c : Condition), m.Reachable → c.InRange →
      (Work.perform (.skip c) m).machine.counter = (m.counter + 2) % 4096 ∧
        (Work.perform (.skip c.opposite) m).machine.counter = m.counter ∨
      (Work.perform (.skip c) m).machine.counter = m.counter ∧
        (Work.perform (.skip c.opposite) m).machine.counter = (m.counter + 2) % 4096 := by
  refine ⟨?_, ?_, ?_⟩
  · intro m hm ha hok
    obtain ⟨i, hx⟩ := exists_executes? hm.valid ha hok
    obtain ⟨-, hi, -⟩ := (executes?_next hm.valid).1 hx
    exact ⟨(instruction_eq_ok.1 hi).1, next_goesTo hm.valid hx, next_counter_no_key hm.valid hx⟩
  · intro m m' c hm hm'
    exact next_counter_opposite hm.valid hm'.valid
  · intro m c hm hc
    rw [perform_skip hm.valid hc, perform_skip hm.valid hc.opposite, holds_opposite]
    cases m.holds c with
    | true => exact .inl ⟨rfl, rfl⟩
    | false => exact .inr ⟨rfl, rfl⟩

/-- Two programs that begin with opposite skips. -/
theorem next_goes_skip :
    ∃ m m' : Machine, m.Reachable ∧ m'.Reachable ∧ m.current = 0x3000 ∧ m'.current = 0x4000 ∧
      m.counter = 0x200 ∧ m'.counter = 0x200 ∧
      m.next.machine.counter = 0x204 ∧ m'.next.machine.counter = 0x202 ∧
      (Work.perform (.skip (.keyDown 0)) m).machine.counter ≠
        (Work.perform (.skip (.keyUp 0)) m).machine.counter := by
  have hstart : ∀ high low : UInt8, ∃ m : Machine, m.Reachable ∧ m.activity = .running ∧
      m.counter = 0x200 ∧ m.registers = Bank.zero ∧ m.keyboard = .released ∧
      m.current = Word.ofBytes high low := by
    intro high low
    have hsize : Rom.size ⟨"skip", [high, low]⟩ ≤ programLimit := show 2 ≤ programLimit by decide
    refine ⟨(blank .standard .released (.cycle #[])).loaded ⟨"skip", [high, low]⟩,
      .boot (boot_eq_ok.2 ⟨hsize, rfl⟩), rfl, rfl, rfl, rfl, ?_⟩
    exact congr (congrArg Word.ofBytes (cell_loaded (i := 0) (by decide)))
      (cell_loaded (i := 1) (by decide))
  obtain ⟨m, hm, ha, hc, hregisters, hkeyboard, hword⟩ := hstart 0x30 0x00
  obtain ⟨m', hm', ha', hc', hregisters', hkeyboard', hword'⟩ := hstart 0x40 0x00
  have hi : m.instruction = .ok (.skip (.equalByte 0 0)) := by
    rw [instruction_of_lt (by rw [hc]; decide), hword]
    rfl
  have hi' : m'.instruction = .ok (.skip (.unequalByte 0 0)) := by
    rw [instruction_of_lt (by rw [hc']; decide), hword']
    rfl
  obtain ⟨hgoes, hparts, hperforms⟩ := next_goes
  have hok : ∃ hint, m.next.result = .ok hint :=
    ⟨_, next_hint hm.valid ((executes?_next hm.valid).2 ⟨ha, hi, rfl⟩)⟩
  have hskips : m.Skips m.current := by
    rw [hword]
    refine .inl ⟨by decide, ?_⟩
    rw [hregisters]
    decide
  have hcounter : m.next.machine.counter = 0x204 := by
    rw [(hgoes m hm ha hok).2.1.skip hskips, hc]
  have hcounter' : m'.next.machine.counter = 0x202 := by
    obtain ⟨-, h⟩ | ⟨h, -⟩ := hparts m m' (.equalByte 0 0) hm hm' ha ha' hi hi'
      (hregisters'.trans hregisters.symm) (hkeyboard'.trans hkeyboard.symm) (hc'.trans hc.symm)
    · rw [h, hc]
    · rw [h, hc] at hcounter
      exact absurd hcounter (by decide)
  refine ⟨m, m', hm, hm', hword, hword', hc, hc', hcounter, hcounter', ?_⟩
  have hopposite : (Condition.keyDown 0).opposite = .keyUp 0 := rfl
  have hkeys := hperforms m (.keyDown 0) hm (show 0 < 16 by decide)
  rw [hopposite, hc] at hkeys
  obtain ⟨hdown, hup⟩ | ⟨hdown, hup⟩ := hkeys
  · rw [hdown, hup]
    decide
  · rw [hdown, hup]
    decide

end Machine

end SpriteVM
