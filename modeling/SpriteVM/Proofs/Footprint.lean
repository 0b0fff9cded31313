import SpriteVM.Proofs.Subroutine

/-!
# Footprints

What an instruction may write, and that it writes nothing else.

* `Instruction.WritesRegister`, `WritesMemory` and `WritesPixel` say which cells and pixels an
  instruction may write; the last two depend on the index register and on the registers that it
  reads.
* `Machine.adopt` takes over from a second machine just the fields that an instruction may write.
  An executed instruction is of that form (`execute_eq_adopt`).
* `Machine.Footprint` puts the two together, field by field. The program counter and the remembered
  word are left out: every step may write them.

`next_footprint` states it for the steps of reachable machines.
-/

namespace SpriteVM

/-- Whether an operation puts a flag into the flag register. -/
def Alu.setsFlag : Alu → Bool
  | .copy | .or | .and | .xor => false
  | .add | .sub | .shiftRight | .subFrom | .shiftLeft => true

/-- An operation gives a flag only when it sets one. -/
theorem Alu.setsFlag_of_flag? {op : Alu} {a b flag : UInt8} (h : op.flag? a b = some flag) :
    op.setsFlag := by
  cases op with
  | copy | or | and | xor => cases h
  | add | sub | shiftRight | subFrom | shiftLeft => rfl

namespace Instruction

/-! ## What an instruction may write -/

/-- The registers that an instruction may write. -/
def WritesRegister (i : Instruction) (r : Nat) : Prop :=
  match i with
  | .loadByte x _ | .addByte x _ | .random x _ | .readDelay x => r = x
  | .combine op x _ => r = x ∨ op.setsFlag ∧ r = flagRegister
  | .draw .. => r = flagRegister
  | .loadRegisters x => r ≤ x
  | _ => False

/-- The addresses that an instruction may write when the index register holds `index`. -/
def WritesMemory (i : Instruction) (index a : Nat) : Prop :=
  match i with
  | .storeDecimal _ => index ≤ a ∧ a ≤ index + 2
  | .storeRegisters x => index ≤ a ∧ a ≤ index + x
  | _ => False

/-- The pixels that an instruction may write when the registers have these contents. -/
def WritesPixel (i : Instruction) (registers : Registers) (px py : Nat) : Prop :=
  match i with
  | .clear => True
  | .draw x y n => Sprite.area (registers.cell x).toNat (registers.cell y).toNat n px py
  | _ => False

/-- The activity after an instruction. -/
def activityAfter (i : Instruction) (activity : Activity) : Activity :=
  match i with
  | .waitKey x => .awaitingKey x
  | _ => activity

end Instruction

namespace Machine

/-- The first machine with the fields of the second one that an instruction may write. -/
def adopt (m : Machine) (i : Instruction) (m' : Machine) : Machine :=
  match i with
  | .sys _ | .jump _ | .jumpOffset _ | .skip _ => m
  | .clear => { m with display := m'.display }
  | .ret | .call _ => { m with stack := m'.stack }
  | .loadByte .. | .addByte .. | .combine .. | .readDelay _ | .loadRegisters _ =>
    { m with registers := m'.registers }
  | .random .. => { m with registers := m'.registers, random := m'.random }
  | .loadIndex _ | .addIndex _ | .loadGlyph _ => { m with index := m'.index }
  | .draw .. => { m with display := m'.display, registers := m'.registers }
  | .waitKey _ => { m with activity := m'.activity }
  | .setDelay _ => { m with delay := m'.delay }
  | .setSound _ => { m with sound := m'.sound }
  | .storeDecimal _ | .storeRegisters _ => { m with memory := m'.memory }

/-- What an instruction leaves alone, and how it moves the stack. -/
structure Footprint (m : Machine) (i : Instruction) (m' : Machine) : Prop where
  /-- no instruction renames the program -/
  name : m'.name = m.name
  /-- no instruction moves a key -/
  keyboard : m'.keyboard = m.keyboard
  /-- a store writes the addresses from the index register on -/
  memory : ∀ a, ¬ i.WritesMemory m.index a → m'.memory.cell a = m.memory.cell a
  /-- no instruction widens the display -/
  width : m'.display.width = m.display.width
  /-- no instruction heightens the display -/
  height : m'.display.height = m.display.height
  /-- a drawing writes the area of its sprite -/
  pixels : ∀ x y, ¬ i.WritesPixel m.registers x y → m'.display.lit x y = m.display.lit x y
  /-- an instruction writes its own registers -/
  registers : ∀ r, ¬ i.WritesRegister r → m'.registers.cell r = m.registers.cell r
  /-- calls and returns move the stack -/
  stack : m'.stack ≠ m.stack → i.pattern ∈ ["2nnn", "00EE"]
  /-- a call puts one return address on the stack -/
  pushed : i.pattern = "2nnn" → ∃ a, m'.stack = a :: m.stack
  /-- a return takes one away -/
  popped : i.pattern = "00EE" → ∃ a, m.stack = a :: m'.stack
  /-- what writes the index register -/
  index : m'.index ≠ m.index → i.pattern ∈ ["Annn", "Fx1E", "Fx29"]
  /-- what writes the delay timer -/
  delay : m'.delay ≠ m.delay → i.pattern = "Fx15"
  /-- what writes the sound timer -/
  sound : m'.sound ≠ m.sound → i.pattern = "Fx18"
  /-- what begins to wait for a key -/
  activity : m'.activity ≠ m.activity → i.pattern = "Fx0A"
  /-- what takes random bytes -/
  random : m'.random ≠ m.random → i.pattern = "Cxkk"

variable {m : Machine} {i : Instruction}

/-! ## Executing -/

/-- A combination writes its first register and, if it sets a flag, the flag register. -/
theorem cell_combined {op : Alu} {x y r : Nat}
    (h : ¬ Instruction.WritesRegister (.combine op x y) r) :
    (m.combined op x y).cell r = m.registers.cell r := by
  obtain ⟨hx, hflag⟩ := not_or.1 h
  unfold combined
  dsimp only
  split
  · next flag hf =>
    have hne : r ≠ flagRegister := fun hr => hflag ⟨Alu.setsFlag_of_flag? hf, hr⟩
    rw [Bank.cell_put_of_ne _ hne, Bank.cell_put_of_ne _ hx]
  · exact Bank.cell_put_of_ne _ hx

/-- An executed instruction writes no other field than those it may write. -/
theorem execute_eq_adopt (hm : m.Valid) (hi : i.InRange) (ho : m.obstacle? i = none) :
    (Work.execute i m).machine = m.adopt i (Work.execute i m).machine := by
  cases i with
  | sys nnn => rfl
  | clear => rfl
  | jump nnn => rfl
  | loadIndex nnn => rfl
  | waitKey x => rfl
  | jumpOffset nnn => rw [Work.execute_jumpOffset hi]; rfl
  | skip c => rw [Work.execute_skip hi]; rfl
  | loadByte x kk => rw [Work.execute_loadByte hi kk]; rfl
  | addByte x kk => rw [Work.execute_addByte hi kk]; rfl
  | random x kk => rw [Work.execute_random hi kk]; rfl
  | combine op x y => rw [Work.execute_combine hi.1 hi.2]; rfl
  | addIndex x => rw [Work.execute_addIndex hi hm.index]; rfl
  | loadGlyph x => rw [Work.execute_loadGlyph hi]; rfl
  | readDelay x => rw [Work.execute_readDelay hi]; rfl
  | setDelay x => rw [Work.execute_setDelay hi]; rfl
  | setSound x => rw [Work.execute_setSound hi]; rfl
  | ret =>
    obtain ⟨address, stack, hs⟩ := List.exists_cons_of_ne_nil (stack_ne_nil ho)
    rw [Work.execute_ret_cons hs]
    rfl
  | call nnn => rw [Work.execute_call (length_stack_ne ho)]; rfl
  | draw x y n => rw [Work.execute_draw hi.1 hi.2.1 (overrun?_eq_none.1 ho)]; rfl
  | storeDecimal x => rw [Work.execute_storeDecimal hi (overrun?_eq_none.1 ho)]; rfl
  | storeRegisters x => rw [Work.execute_storeRegisters hi (overrun?_eq_none.1 ho)]; rfl
  | loadRegisters x => rw [Work.execute_loadRegisters hi (overrun?_eq_none.1 ho)]; rfl

/-- An instruction that is executed leaves the registers that it may not write. -/
theorem execute_registers (hm : m.Valid) (hi : i.InRange) (ho : m.obstacle? i = none) {r : Nat}
    (h : ¬ i.WritesRegister r) :
    (Work.execute i m).machine.registers.cell r = m.registers.cell r := by
  have hadopt := congrArg (fun m' => m'.registers.cell r) (execute_eq_adopt hm hi ho)
  cases i with
  | loadByte x kk =>
    rw [Work.execute_loadByte hi kk]
    exact Bank.cell_put_of_ne _ h
  | addByte x kk =>
    rw [Work.execute_addByte hi kk]
    exact Bank.cell_put_of_ne _ h
  | random x kk =>
    rw [Work.execute_random hi kk]
    exact Bank.cell_put_of_ne _ h
  | readDelay x =>
    rw [Work.execute_readDelay hi]
    exact Bank.cell_put_of_ne _ h
  | combine op x y =>
    rw [Work.execute_combine hi.1 hi.2]
    exact cell_combined h
  | draw x y n =>
    rw [Work.execute_draw hi.1 hi.2.1 (overrun?_eq_none.1 ho)]
    exact cell_drawn m x y n h
  | loadRegisters x =>
    have hblock := overrun?_eq_none.1 ho
    rw [Work.execute_loadRegisters hi hblock]
    refine Bank.cell_fill_of_outside (.inr ?_)
    rw [Bank.length_block hblock]
    simp only [Instruction.WritesRegister] at h
    omega
  | _ => exact hadopt

/-- An instruction that is executed leaves the addresses that it may not write. -/
theorem execute_memory (hm : m.Valid) (hi : i.InRange) (ho : m.obstacle? i = none) {a : Nat}
    (h : ¬ i.WritesMemory m.index a) :
    (Work.execute i m).machine.memory.cell a = m.memory.cell a := by
  have hadopt := congrArg (fun m' => m'.memory.cell a) (execute_eq_adopt hm hi ho)
  cases i with
  | storeDecimal x =>
    rw [Work.execute_storeDecimal hi (overrun?_eq_none.1 ho)]
    refine Bank.cell_fill_of_outside ?_
    simp only [Instruction.WritesMemory] at h
    simp only [Work.decimalDigits, List.length_cons, List.length_nil]
    omega
  | storeRegisters x =>
    have hcount : 0 + (x + 1) ≤ 16 := by
      have hx : x < 16 := hi
      omega
    rw [Work.execute_storeRegisters hi (overrun?_eq_none.1 ho)]
    refine Bank.cell_fill_of_outside ?_
    rw [Bank.length_block hcount]
    simp only [Instruction.WritesMemory] at h
    omega
  | _ => exact hadopt

/-- An instruction that is executed leaves the pixels that it may not write. -/
theorem execute_pixels (hm : m.Valid) (hi : i.InRange) (ho : m.obstacle? i = none) {px py : Nat}
    (h : ¬ i.WritesPixel m.registers px py) :
    (Work.execute i m).machine.display.lit px py = m.display.lit px py := by
  have hadopt := congrArg (fun m' => m'.display.lit px py) (execute_eq_adopt hm hi ho)
  cases i with
  | clear => exact absurd trivial h
  | draw x y n =>
    have hblock := overrun?_eq_none.1 ho
    rw [Work.execute_draw hi.1 hi.2.1 hblock]
    exact lit_drawn_of_outside hblock h
  | _ => exact hadopt

/-- A key is awaited after an instruction that waits for it; the others leave the activity. -/
theorem execute_activity (hm : m.Valid) (hi : i.InRange) (ho : m.obstacle? i = none) :
    (Work.execute i m).machine.activity = i.activityAfter m.activity := by
  have hadopt := congrArg Machine.activity (execute_eq_adopt hm hi ho)
  cases i with
  | waitKey x => rfl
  | _ => exact hadopt

/-- An executed instruction keeps to its footprint. -/
theorem execute_footprint (hm : m.Valid) (hi : i.InRange) (ho : m.obstacle? i = none) :
    m.Footprint i (Work.execute i m).machine := by
  obtain ⟨m', effect, log, hx, hs⟩ := Work.execute_of_no_obstacle hm hi ho
  have hadopt := execute_eq_adopt hm hi ho
  have hregisters := fun r => execute_registers hm hi ho (r := r)
  have hmemory := fun a => execute_memory hm hi ho (a := a)
  have hpixels : ∀ px py, ¬ i.WritesPixel m.registers px py →
      (Work.execute i m).machine.display.lit px py = m.display.lit px py :=
    fun _ _ => execute_pixels hm hi ho
  rw [hx] at hadopt hregisters hmemory hpixels ⊢
  have hstack := hs.stack
  constructor
  case name =>
    have hname := congrArg Machine.name hadopt
    cases i <;> exact hname
  case keyboard =>
    have hkeyboard := congrArg Machine.keyboard hadopt
    cases i <;> exact hkeyboard
  case memory => exact hmemory
  case width => exact hs.width
  case height => exact hs.height
  case pixels => exact hpixels
  case registers => exact hregisters
  case stack =>
    intro hne
    cases i with
    | call nnn | ret => simp [Instruction.pattern]
    | _ => exact absurd hstack hne
  case pushed =>
    intro hcall
    obtain ⟨nnn, rfl⟩ := Instruction.pattern_eq_call.1 hcall
    exact ⟨m.counter, hstack⟩
  case popped =>
    intro hret
    obtain rfl := Instruction.pattern_eq_ret.1 hret
    obtain ⟨address, stack, hcons⟩ := List.exists_cons_of_ne_nil (stack_ne_nil ho)
    rw [hcons] at hstack ⊢
    exact ⟨address, congrArg _ hstack.symm⟩
  case index =>
    intro hne
    have hindex := congrArg Machine.index hadopt
    cases i with
    | loadIndex nnn | addIndex x | loadGlyph x => simp [Instruction.pattern]
    | _ => exact absurd hindex hne
  case delay =>
    intro hne
    have hdelay := congrArg Machine.delay hadopt
    cases i with
    | setDelay x => rfl
    | _ => exact absurd hdelay hne
  case sound =>
    intro hne
    have hsound := congrArg Machine.sound hadopt
    cases i with
    | setSound x => rfl
    | _ => exact absurd hsound hne
  case activity =>
    intro hne
    have hactivity := congrArg Machine.activity hadopt
    cases i with
    | waitKey x => rfl
    | _ => exact absurd hactivity hne
  case random =>
    intro hne
    have hrandom := congrArg Machine.random hadopt
    cases i with
    | random x kk => rfl
    | _ => exact absurd hrandom hne

/-! ## Steps -/

/-- A step that executes an instruction ends with the state that the instruction leads to, apart
from the program counter. -/
theorem next_machine_of_executes? (hm : m.Valid) (h : m.executes? .next = some i) :
    m.next.machine =
      { (Work.execute i m.fetched).machine with counter := m.next.machine.counter } := by
  obtain ⟨ha, hi, ho⟩ := (executes?_next hm).1 h
  obtain ⟨m', effect, log, hx, -, hnext⟩ := next_of_no_obstacle hm ha hi ho
  rw [hnext, hx]

/-- A step leaves an address unless it executes an instruction that may write there. -/
theorem next_memory_cell (hm : m.Valid) {a : Nat}
    (h : ∀ i, m.executes? .next = some i → ¬ i.WritesMemory m.index a) :
    m.next.machine.memory.cell a = m.memory.cell a := by
  cases hx : m.executes? .next with
  | none => rw [next_of_none hm hx]
  | some i =>
    obtain ⟨-, hi, ho⟩ := (executes?_next hm).1 hx
    rw [next_machine_of_executes? hm hx]
    exact execute_memory hm.fetched (inRange_of_instruction hi) ho (h i hx)

/-- An action executes an instruction that may write the address. -/
def StoresAt (m : Machine) (a : Nat) (action : Action) : Prop :=
  ∃ i, m.executes? action = some i ∧ i.WritesMemory m.index a

/-- **Step lemma.** While a session is under way only a store at an address changes the byte
there. -/
theorem act_memory_cell {action : Action} {a : Nat} (hm : m.Valid) (haction : action.Underway)
    (hstore : ¬ m.StoresAt a action) : (m.act action).machine.memory.cell a = m.memory.cell a := by
  cases action with
  | tick => rfl
  | edit e => rfl
  | load | follow | perform | execute => cases haction
  | next => exact next_memory_cell hm fun i hx hwrites => hstore ⟨i, hx, hwrites⟩

/-- **Run lemma.** Without a store at an address the byte there stays. -/
theorem run_memory_cell {as : List Action} {a : Nat} (hm : m.Valid) (has : ∀ c ∈ as, c.Underway)
    (hstore : ∀ bs c cs, as = bs ++ c :: cs → ¬ (m.run bs).StoresAt a c) :
    (m.run as).memory.cell a = m.memory.cell a := by
  induction as generalizing m with
  | nil => rfl
  | cons action as ih =>
    have haction := has action (List.mem_cons_self ..)
    have hfirst := act_memory_cell hm haction (hstore [] action as rfl)
    have hrest : (m.run (action :: as)).memory.cell a = (m.act action).machine.memory.cell a := by
      refine ih (act_keeps_of_handsOff hm haction.handsOff).valid ?_ ?_
      · intro b hb
        exact has b (List.mem_cons_of_mem _ hb)
      · intro bs b cs hbs
        exact hstore (action :: bs) b cs (congrArg (action :: ·) hbs)
    exact hrest.trans hfirst

/-- The activity after a step that executes an instruction. -/
theorem next_activity (hm : m.Valid) (h : m.executes? .next = some i) :
    m.next.machine.activity = i.activityAfter .running := by
  obtain ⟨ha, hi, ho⟩ := (executes?_next hm).1 h
  have hactivity := execute_activity hm.fetched (inRange_of_instruction hi) ho
  have hrunning : m.fetched.activity = .running := ha
  rw [next_machine_of_executes? hm h, ← hrunning]
  exact hactivity

/-- **Steps keep to their footprint.** A step that executes an instruction with success writes what
that instruction may write and, besides, the program counter and the remembered word. -/
theorem next_footprint (hm : m.Reachable) (h : m.executes? .next = some i) :
    m.Footprint i m.next.machine := by
  obtain ⟨ha, hi, ho⟩ := (executes?_next hm.valid).1 h
  have hfoot := execute_footprint hm.valid.fetched (inRange_of_instruction hi) ho
  rw [next_machine_of_executes? hm.valid h]
  -- the footprint mentions neither the program counter nor the remembered word
  exact { hfoot with }

/-- A program that draws one row at the point that the flag register names twice. -/
theorem next_footprint_draw :
    ∃ m : Machine, m.Reachable ∧ m.executes? .next = some (.draw 0xF 0xF 1) ∧
      (∀ a, m.next.machine.memory.cell a = m.memory.cell a) ∧
      (∀ r, r ≠ 0xF → m.next.machine.registers.cell r = m.registers.cell r) ∧
      ∀ x y, (m.registers.cell 0xF).toNat < y →
        m.next.machine.display.lit x y = m.display.lit x y := by
  obtain ⟨start, hstart, hrun, hcounter, -, hbytes⟩ :=
    exists_started ⟨"draw", [0xDF, 0xF1]⟩ (by decide)
  have hinstruction : start.instruction = .ok (.draw 0xF 0xF 1) :=
    instruction_of_cells hcounter (by decide) (hbytes 0 (by decide)) (hbytes 1 (by decide))
  have hdraw : start.executes? .next = some (.draw 0xF 0xF 1) :=
    (executes?_next hstart.valid).2 ⟨hrun, hinstruction, overrun?_eq_none.2 hstart.valid.index⟩
  have hfoot := next_footprint hstart hdraw
  refine ⟨start, hstart, hdraw, fun a => hfoot.memory a id, hfoot.registers, ?_⟩
  intro x y hy
  refine hfoot.pixels x y ?_
  rintro ⟨-, -, hrow⟩
  omega

end Machine

end SpriteVM
