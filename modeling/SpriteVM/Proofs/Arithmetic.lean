import SpriteVM.Proofs.Failure

/-!
# Register arithmetic

What the register-to-register operations compute, in terms of the numbers that the bytes stand for.
`Alu.value` and `Alu.flagValue?` are the result and the flag of an operation, with wrap-around as
remainders (`toNat_result`, `toNat_flag?`).

Operands, result and flag all live in the registers, and any two of them may be the same register.
`Registers.Receive` says what is where afterwards: the flag has the last word in the flag register.
`arithmetic_exact` states this for instructions executed on their own and for steps.
-/

namespace SpriteVM

/-! ## Numbers -/

namespace Alu

/-- The number that an operation computes from the numbers in its registers. -/
def value (op : Alu) (a b : Nat) : Int :=
  match op with
  | .copy => b
  | .or => (a ||| b : Nat)
  | .and => (a &&& b : Nat)
  | .xor => (a ^^^ b : Nat)
  | .add => (a + b) % 256
  | .sub => (a - b) % 256
  | .shiftRight => a / 2
  | .subFrom => (b - a) % 256
  | .shiftLeft => 2 * a % 256

/-- The flag that an operation sets, if it sets one. -/
def flagValue? (op : Alu) (a b : Nat) : Option Nat :=
  match op with
  | .copy | .or | .and | .xor => none
  | .add => some (if 255 < a + b then 1 else 0)
  | .sub => some (if b ≤ a then 1 else 0)
  | .shiftRight => some (a % 2)
  | .subFrom => some (if a ≤ b then 1 else 0)
  | .shiftLeft => some (a / 128)

theorem toNat_flagByte (condition : Bool) :
    (flagByte condition).toNat = if condition then 1 else 0 := by
  cases condition <;> rfl

/-- The result of an operation is the number that it computes. -/
theorem toNat_result (op : Alu) (a b : UInt8) :
    ((op.result a b).toNat : Int) = op.value a.toNat b.toNat := by
  have ha := a.toNat_lt
  have hb := b.toNat_lt
  cases op with
  | copy | or | and | xor => simp [result, value]
  | add => simp [result, value]
  | sub | subFrom =>
    simp only [result, value, UInt8.toNat_sub]
    omega
  | shiftRight => simp [result, value, Nat.shiftRight_eq_div_pow]
  | shiftLeft =>
    simp [result, value, Nat.shiftLeft_eq]
    omega

/-- The flag of an operation is the number that it stands for. -/
theorem toNat_flag? (op : Alu) (a b : UInt8) :
    (op.flag? a b).map UInt8.toNat = op.flagValue? a.toNat b.toNat := by
  cases op with
  | copy | or | and | xor => rfl
  | add => simp [flag?, flagValue?, toNat_flagByte, Nat.lt_iff_add_one_le]
  | sub | subFrom => simp [flag?, flagValue?, toNat_flagByte, UInt8.le_iff_toNat_le]
  | shiftRight => simp [flag?, flagValue?]
  | shiftLeft => simp [flag?, flagValue?, Nat.shiftRight_eq_div_pow]

end Alu

/-! ## Registers -/

/-- The registers after an operation that puts the number `r` into the register `x` and after that
the flag, if there is one, into the flag register. -/
structure Registers.Receive (before : Registers) (x : Nat) (r : Int) (f? : Option Nat)
    (after : Registers) : Prop where
  /-- the flag register holds the flag, whatever `x` is -/
  flag : ∀ f, f? = some f → (after.cell 0xF).toNat = f
  /-- the result stays unless the flag took its place -/
  target : x ≠ 0xF ∨ f? = none → ((after.cell x).toNat : Int) = r
  /-- no other register is written; without a flag that goes for the flag register too -/
  others : ∀ k, k ≠ x → k ≠ 0xF ∨ f? = none → after.cell k = before.cell k

namespace Registers

variable {before : Registers} {x : Nat}

/-- A write alone is an operation without a flag. -/
theorem receive_put (hx : x < 16) (v : UInt8) :
    before.Receive x v.toNat none (before.put x v) where
  flag := nofun
  target _ := by rw [Bank.cell_put hx, if_pos rfl]
  others _ hk _ := Bank.cell_put_of_ne v hk

/-- The flag is written last. -/
theorem receive_put_flag (hx : x < 16) (v flag : UInt8) :
    before.Receive x v.toNat (some flag.toNat) ((before.put x v).put flagRegister flag) where
  flag := by
    rintro f ⟨⟩
    have hflag : flagRegister < 16 := by decide
    exact congrArg UInt8.toNat ((Bank.cell_put hflag flag flagRegister).trans (if_pos rfl))
  target h := by
    have hne : x ≠ flagRegister := h.resolve_right nofun
    rw [Bank.cell_put_of_ne flag hne, Bank.cell_put hx, if_pos rfl]
  others k hk h := by
    have hne : k ≠ flagRegister := h.resolve_right nofun
    rw [Bank.cell_put_of_ne flag hne, Bank.cell_put_of_ne v hk]

end Registers

/-! ## Instructions -/

namespace Machine

variable {m : Machine} {x y : Nat}

/-- A combination computes its number and its flag. -/
theorem receive_combined (op : Alu) (hx : x < 16) :
    m.registers.Receive x
      (op.value (m.registers.cell x).toNat (m.registers.cell y).toNat)
      (op.flagValue? (m.registers.cell x).toNat (m.registers.cell y).toNat)
      (m.combined op x y) := by
  rw [← Alu.toNat_result, ← Alu.toNat_flag?]
  cases hflag : op.flag? (m.registers.cell x) (m.registers.cell y) with
  | none =>
    simp only [combined, hflag]
    exact Registers.receive_put hx _
  | some flag =>
    simp only [combined, hflag]
    exact Registers.receive_put_flag hx _ _

/-- Adding a byte computes the sum and no flag. -/
theorem receive_addByte (hx : x < 16) (kk : UInt8) :
    m.registers.Receive x (((m.registers.cell x).toNat + kk.toNat) % 256) none
      (m.registers.put x (m.registers.cell x + kk)) := by
  have hsum : ((m.registers.cell x + kk).toNat : Int) =
      ((m.registers.cell x).toNat + kk.toNat) % 256 := by
    rw [UInt8.toNat_add]
    rfl
  rw [← hsum]
  exact Registers.receive_put hx _

/-- An instruction that on its own writes registers only and goes on with the next word does the
same in a step. -/
theorem next_of_registers {i : Instruction} {registers : Registers} (ha : m.activity = .running)
    (hi : m.instruction = .ok i)
    (hx : Work.execute i m.fetched =
      { machine := { m.fetched with registers }, result := .ok {} }) :
    m.next.result = .ok .idle ∧
      m.next.machine =
        { m with word := m.current, registers, counter := (m.counter + 2) % 4096 } := by
  rw [next_of_execute ha hi hx (wrap_lt _)]
  refine ⟨rfl, ?_⟩
  show ({ m.fetched with registers, counter := wrap (wrap (m.counter + wordSize)) } : Machine) = _
  rw [wrap, wrap, Nat.mod_mod]
  rfl

/-- **Arithmetic is exact.** An operation on registers puts the number that it computes from both of
them into the first one and its flag, if it has one, into the flag register, whichever of these
registers are the same. Adding a byte gives the sum and no flag. Neither touches anything else, and
a step that meets such an instruction does just this and goes on with the next word. -/
theorem arithmetic_exact :
    (∀ (m : Machine) (op : Alu) (x y : Nat), x < 16 → y < 16 → ∃ registers,
      Work.execute (.combine op x y) m =
        { machine := { m with registers }, result := .ok {} } ∧
      m.registers.Receive x
        (op.value (m.registers.cell x).toNat (m.registers.cell y).toNat)
        (op.flagValue? (m.registers.cell x).toNat (m.registers.cell y).toNat) registers) ∧
    (∀ (m : Machine) (x : Nat) (kk : UInt8), x < 16 → ∃ registers,
      Work.execute (.addByte x kk) m = { machine := { m with registers }, result := .ok {} } ∧
      m.registers.Receive x (((m.registers.cell x).toNat + kk.toNat) % 256) none registers) ∧
    ∀ m : Machine, m.activity = .running → m.counter + 1 < 4096 →
      (∀ op : Alu, m.current.fits op.pattern → m.next.result = .ok .idle ∧ ∃ registers,
        m.next.machine =
          { m with word := m.current, registers, counter := (m.counter + 2) % 4096 } ∧
        m.registers.Receive m.current.x
          (op.value (m.registers.cell m.current.x).toNat (m.registers.cell m.current.y).toNat)
          (op.flagValue? (m.registers.cell m.current.x).toNat
            (m.registers.cell m.current.y).toNat) registers) ∧
      (m.current.fits "7xkk" → m.next.result = .ok .idle ∧ ∃ registers,
        m.next.machine =
          { m with word := m.current, registers, counter := (m.counter + 2) % 4096 } ∧
        m.registers.Receive m.current.x
          (((m.registers.cell m.current.x).toNat + m.current.kk.toNat) % 256) none registers) := by
  refine ⟨?_, ?_, ?_⟩
  · intro m op x y hx hy
    exact ⟨_, Work.execute_combine hx hy, receive_combined op hx⟩
  · intro m x kk hx
    exact ⟨_, Work.execute_addByte hx kk, receive_addByte hx kk⟩
  · intro m ha hlt
    have hx : m.current.x < 16 := m.current.x_lt
    constructor
    · intro op hfits
      have hpattern : op.pattern ≠ "0nnn" := by cases op <;> decide
      have hi := instruction_eq_ok.2
        ⟨hlt, Instruction.ofWord?_of_fits (i := .combine op 0 0) hpattern hfits⟩
      obtain ⟨hresult, hnext⟩ :=
        next_of_registers ha hi (Work.execute_combine hx m.current.y_lt)
      exact ⟨hresult, _, hnext, receive_combined op hx⟩
    · intro hfits
      have hi := instruction_eq_ok.2
        ⟨hlt, Instruction.ofWord?_of_fits (i := .addByte 0 0) (by decide) hfits⟩
      obtain ⟨hresult, hnext⟩ := next_of_registers ha hi (Work.execute_addByte hx m.current.kk)
      exact ⟨hresult, _, hnext, receive_addByte hx m.current.kk⟩

/-- The flag register added to itself: the carry takes the place of the sum. Adding a byte to it
leaves the sum. -/
theorem arithmetic_exact_carry :
    ∃ m : Machine, m.current = 0x8FF4 ∧ (m.registers.cell 0xF).toNat = 200 ∧
      (m.next.machine.registers.cell 0xF).toNat = 1 ∧
      ((Work.execute (.combine .add 0xF 0xF) m).machine.registers.cell 0xF).toNat = 1 ∧
      ((Work.execute (.addByte 0xF 100) m).machine.registers.cell 0xF).toNat = 44 := by
  obtain ⟨m, ha, hcounter, hvf, hword⟩ : ∃ m : Machine, m.activity = .running ∧
      m.counter = 0x200 ∧ (m.registers.cell 0xF).toNat = 200 ∧ m.current = 0x8FF4 := by
    refine ⟨{ (blank .standard .released (.cycle #[])).loaded ⟨"add", [0x8F, 0xF4]⟩ with
      registers := Bank.zero.put 0xF 200 }, rfl, rfl, by decide, ?_⟩
    have hword : ((blank .standard .released (.cycle #[])).loaded ⟨"add", [0x8F, 0xF4]⟩).current =
        Word.ofBytes 0x8F 0xF4 :=
      congr (congrArg Word.ofBytes (cell_loaded (i := 0) (by decide)))
        (cell_loaded (i := 1) (by decide))
    exact hword.trans (by decide)
  obtain ⟨hcombine, haddByte, hstep⟩ := arithmetic_exact
  have hx : m.current.x = 0xF := by
    rw [hword]
    decide
  have hy : m.current.y = 0xF := by
    rw [hword]
    decide
  have hfits : m.current.fits Alu.add.pattern := by
    rw [hword]
    decide
  obtain ⟨registers, hexecute, hreceive⟩ := hcombine m .add 0xF 0xF (by decide) (by decide)
  obtain ⟨registers', hexecute', hreceive'⟩ := haddByte m 0xF 100 (by decide)
  obtain ⟨-, registers'', hnext, hreceive''⟩ :=
    (hstep m ha (by rw [hcounter]; decide)).1 .add hfits
  rw [hx, hy, hvf] at hreceive''
  rw [hvf] at hreceive hreceive'
  refine ⟨m, hword, hvf, ?_, ?_, ?_⟩
  · rw [hnext]
    exact hreceive''.flag 1 rfl
  · rw [hexecute]
    exact hreceive.flag 1 rfl
  · rw [hexecute']
    exact Int.ofNat_inj.1 (hreceive'.target (.inr rfl))

end Machine

end SpriteVM
