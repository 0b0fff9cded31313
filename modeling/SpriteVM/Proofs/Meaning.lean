import SpriteVM.Proofs.Decoding
import SpriteVM.Proofs.Drawing

/-!
# The meaning of the instructions

For every instruction with operands in range the turn that executing it leads to: the state, the
effect or the error, and the log. An instruction that may fail has one equation for each outcome.
With those of the instructions without conditions, which stand beside `Work.execute`, these equations
are all that the theorems about steps and runs use of it.
-/

namespace SpriteVM

namespace Machine

/-- Whether a condition holds. -/
def holds (m : Machine) : Condition → Bool
  | .equalByte x kk => m.registers.cell x == kk
  | .unequalByte x kk => m.registers.cell x != kk
  | .equal x y => m.registers.cell x == m.registers.cell y
  | .unequal x y => m.registers.cell x != m.registers.cell y
  | .keyDown x => m.keyboard.isDown (m.registers.cell x).toNat
  | .keyUp x => !m.keyboard.isDown (m.registers.cell x).toNat

/-- The warning about a register that should name a key and does not. -/
def keyWarning (m : Machine) (x : Nat) : List Message :=
  if Keyboard.size ≤ (m.registers.cell x).toNat then [.notAKey x (m.registers.cell x)] else []

/-- The warnings that testing a condition gives rise to. -/
def warnings (m : Machine) : Condition → List Message
  | .keyDown x | .keyUp x => m.keyWarning x
  | _ => []

/-- The registers after a combination. -/
def combined (m : Machine) (op : Alu) (x y : Nat) : Registers :=
  let a := m.registers.cell x
  let b := m.registers.cell y
  let registers := m.registers.put x (op.result a b)
  match op.flag? a b with
  | some flag => registers.put flagRegister flag
  | none => registers

end Machine

/-- The shifts do not depend on the second register. -/
theorem Alu.result_eq_of_readsSecond {op : Alu} (h : op.readsSecond = false) (a b c : UInt8) :
    op.result a b = op.result a c ∧ op.flag? a b = op.flag? a c := by
  cases op <;> first | exact ⟨rfl, rfl⟩ | cases h

namespace Work

variable {m : Machine}

/-! ## Tests and combinations -/

theorem keyTest_apply {x : Nat} (hx : x < 16) :
    keyTest x m =
      { machine := m, result := .ok (m.keyboard.isDown (m.registers.cell x).toNat)
        log := m.keyWarning x } := by
  simp only [keyTest, register_eq_look hx, look_bind_apply, Machine.keyWarning]
  split <;> rfl

theorem test_apply {c : Condition} (hc : c.InRange) :
    test c m = { machine := m, result := .ok (m.holds c), log := m.warnings c } := by
  cases c with
  | equalByte x kk | unequalByte x kk =>
    simp only [test, register_eq_look hc, look_bind_apply, pure_apply]
    rfl
  | equal x y | unequal x y =>
    simp only [test, register_eq_look hc.1, register_eq_look hc.2, look_bind_apply, pure_apply]
    rfl
  | keyDown x => exact keyTest_apply hc
  | keyUp x =>
    have h := keyTest_apply (m := m) hc
    rw [test, bind_of_ok (by rw [h]), h]
    simp only [pure_apply, List.append_nil]
    rfl

theorem combine_apply {op : Alu} {x y : Nat} (hx : x < 16) (hy : y < 16) :
    combine op x y m =
      { machine := { m with registers := m.combined op x y }, result := .ok () } := by
  unfold combine
  simp only [register_eq_look hx, register_eq_look hy, setRegister_eq_change hx, look_bind_apply,
    setFlag_eq_change, Machine.combined]
  by_cases hs : op.readsSecond
  · simp only [hs, if_true, look_bind_apply, change_bind_apply]
    cases op.flag? (m.registers.cell x) (m.registers.cell y) <;> rfl
  -- a shift does not read the second register; zero stands in for it
  · rw [Bool.not_eq_true] at hs
    obtain ⟨hr, hf⟩ := Alu.result_eq_of_readsSecond hs (m.registers.cell x) 0 (m.registers.cell y)
    simp only [hs, Bool.false_eq_true, if_false, pure_bind, change_bind_apply, hr, hf]
    cases op.flag? (m.registers.cell x) (m.registers.cell y) <;> rfl

/-! ## Flow -/

theorem execute_ret_cons {address : Nat} {stack : List Nat} (h : m.stack = address :: stack) :
    execute .ret m =
      { machine := { m with stack }, result := .ok { flow := .jump address }
        log := [.returned address] } := by
  simp only [execute, popReturn, bind_assoc, look_bind_apply, h]
  rfl

theorem execute_ret_nil (h : m.stack = []) :
    execute .ret m = { machine := m, result := .error .stackEmpty } := by
  simp only [execute, popReturn, bind_assoc, look_bind_apply, h]
  rfl

theorem execute_call {nnn : Nat} (h : m.stack.length ≠ stackLimit) :
    execute (.call nnn) m =
      { machine := { m with stack := m.counter :: m.stack }
        result := .ok { flow := .jump nnn } } := by
  simp only [execute, pushReturn, look_bind_apply, bind_assoc, if_neg h, change_bind_apply,
    pure_apply]

theorem execute_call_full {nnn : Nat} (h : m.stack.length = stackLimit) :
    execute (.call nnn) m = { machine := m, result := .error .stackFull } := by
  simp only [execute, pushReturn, look_bind_apply, bind_assoc, if_pos h, fail_bind, fail_apply]

theorem execute_jumpOffset {nnn : Nat} (h : nnn < memorySize) :
    execute (.jumpOffset nnn) m =
      { machine := m, result := .ok { flow := .jump (nnn + (m.registers.cell 0).toNat) } } := by
  have hv := (m.registers.cell 0).toNat_lt
  have h0 : 0 < 16 := by decide
  simp only [execute, register_eq_look h0, look_bind_apply,
    sum_eq_pure (add_lt_wordLimit h (Nat.le_trans (Nat.le_of_lt hv) (by decide))), pure_bind,
    pure_apply]

theorem execute_skip {c : Condition} (hc : c.InRange) :
    execute (.skip c) m =
      { machine := m, result := .ok { flow := .skipIf (m.holds c) }, log := m.warnings c } := by
  have h := test_apply (m := m) hc
  rw [execute, bind_of_ok (by rw [h]), h]
  simp only [pure_apply, List.append_nil]

/-! ## Registers and devices -/

theorem execute_loadByte {x : Nat} (hx : x < 16) (kk : UInt8) :
    execute (.loadByte x kk) m =
      { machine := { m with registers := m.registers.put x kk }, result := .ok {} } := by
  simp only [execute, setRegister_eq_change hx, change_bind_apply, pure_apply]

theorem execute_addByte {x : Nat} (hx : x < 16) (kk : UInt8) :
    execute (.addByte x kk) m =
      { machine := { m with registers := m.registers.put x (m.registers.cell x + kk) }
        result := .ok {} } := by
  simp only [execute, register_eq_look hx, setRegister_eq_change hx, look_bind_apply,
    change_bind_apply, pure_apply]

theorem execute_random {x : Nat} (hx : x < 16) (kk : UInt8) :
    execute (.random x kk) m =
      { machine :=
          { m with
            random := m.random.advance
            registers := m.registers.put x (m.random.peek &&& kk) }
        result := .ok {} } := by
  simp only [execute, randomByte, bind_assoc, setRegister_eq_change hx, look_bind_apply,
    change_bind_apply, pure_apply]

theorem execute_combine {op : Alu} {x y : Nat} (hx : x < 16) (hy : y < 16) :
    execute (.combine op x y) m =
      { machine := { m with registers := m.combined op x y }, result := .ok {} } := by
  rw [execute, bind_of_apply (combine_apply hx hy), pure_apply]

theorem execute_addIndex {x : Nat} (hx : x < 16) (hi : m.index < memorySize) :
    execute (.addIndex x) m =
      { machine := { m with index := wrap (m.index + (m.registers.cell x).toNat) }
        result := .ok {} } := by
  have hv := (m.registers.cell x).toNat_lt
  simp only [execute, addIndex, bind_assoc, register_eq_look hx, look_bind_apply,
    sum_eq_pure (add_lt_wordLimit hi (Nat.le_trans (Nat.le_of_lt hv) (by decide))), pure_bind,
    change_bind_apply, pure_apply]

theorem execute_loadGlyph {x : Nat} (hx : x < 16) :
    execute (.loadGlyph x) m =
      { machine :=
          { m with index := Glyph.location + (m.registers.cell x).toNat * Glyph.height }
        result := .ok {}
        log :=
          if Glyph.count ≤ (m.registers.cell x).toNat then [.noGlyph x (m.registers.cell x)]
          else [] } := by
  have hv := (m.registers.cell x).toNat_lt
  have hsum : Glyph.location + (m.registers.cell x).toNat * Glyph.height < Numeral.wordLimit := by
    simp only [Glyph.location, Glyph.height, Numeral.wordLimit]
    omega
  simp only [execute, loadGlyph, bind_assoc, register_eq_look hx, look_bind_apply, sum_eq_pure hsum,
    pure_bind]
  split <;> simp only [bind_assoc, say_bind_apply, change_bind_apply, pure_apply]

theorem execute_readDelay {x : Nat} (hx : x < 16) :
    execute (.readDelay x) m =
      { machine := { m with registers := m.registers.put x m.delay.value }, result := .ok {} } := by
  simp only [execute, setRegister_eq_change hx, look_bind_apply, change_bind_apply, pure_apply]

theorem execute_setDelay {x : Nat} (hx : x < 16) :
    execute (.setDelay x) m =
      { machine := { m with delay := ⟨m.registers.cell x⟩ }, result := .ok {} } := by
  simp only [execute, register_eq_look hx, look_bind_apply, change_bind_apply, pure_apply]

theorem execute_setSound {x : Nat} (hx : x < 16) :
    execute (.setSound x) m =
      { machine := { m with sound := ⟨m.registers.cell x⟩ }, result := .ok {} } := by
  simp only [execute, register_eq_look hx, look_bind_apply, change_bind_apply, pure_apply]

/-! ## Memory -/

theorem execute_storeDecimal {x : Nat} (hx : x < 16) (h : m.index + 3 ≤ memorySize) :
    execute (.storeDecimal x) m =
      { machine :=
          { m with memory := m.memory.fill m.index (decimalDigits (m.registers.cell x)) }
        result := .ok {} } := by
  have hlen : (decimalDigits (m.registers.cell x)).length = 3 := rfl
  simp only [execute, storeDecimal, bind_assoc, look_bind_apply, checkRange_eq_pure h, pure_bind,
    register_eq_look hx, writeBlock_eq_change hlen h, change_bind_apply, pure_apply]

theorem execute_storeDecimal_outOfBounds {x : Nat} (hi : m.index < memorySize)
    (h : memorySize < m.index + 3) :
    execute (.storeDecimal x) m = { machine := m, result := .error (.outOfBounds m.index 3) } := by
  simp only [execute, storeDecimal, bind_assoc, look_bind_apply,
    checkRange_eq_fail hi (by decide) h, fail_bind, fail_apply]

/-- The number of registers up to a register. -/
theorem count_eq_pure {x : Nat} (hx : x < 16) : sum x 1 = pure (x + 1) :=
  sum_eq_pure (byte_add_lt (Nat.lt_trans hx (by decide)) (by decide))

/-- The registers up to a register make a block. -/
theorem registers_block? {x : Nat} (hx : x < 16) :
    m.registers.block? 0 (x + 1) = some (m.registers.block 0 (x + 1)) :=
  Bank.block?_eq_some (by omega)

theorem execute_storeRegisters {x : Nat} (hx : x < 16) (h : m.index + (x + 1) ≤ memorySize) :
    execute (.storeRegisters x) m =
      { machine := { m with memory := m.memory.fill m.index (m.registers.block 0 (x + 1)) }
        result := .ok {} } := by
  have hlen : (m.registers.block 0 (x + 1)).length = x + 1 := Bank.length_block (by omega)
  simp only [execute, storeRegisters, bind_assoc, look_bind_apply, count_eq_pure hx, pure_bind,
    checkRange_eq_pure h, registers_block? hx, demand_some, writeBlock_eq_change hlen h,
    change_bind_apply, pure_apply]

theorem execute_storeRegisters_outOfBounds {x : Nat} (hx : x < 16) (hi : m.index < memorySize)
    (h : memorySize < m.index + (x + 1)) :
    execute (.storeRegisters x) m =
      { machine := m, result := .error (.outOfBounds m.index (x + 1)) } := by
  have hcount : x + 1 ≤ memorySize := Nat.le_trans hx (by decide)
  simp only [execute, storeRegisters, bind_assoc, look_bind_apply, count_eq_pure hx, pure_bind,
    checkRange_eq_fail hi hcount h, fail_bind, fail_apply]

theorem execute_loadRegisters {x : Nat} (hx : x < 16) (h : m.index + (x + 1) ≤ memorySize) :
    execute (.loadRegisters x) m =
      { machine := { m with registers := m.registers.fill 0 (m.memory.block m.index (x + 1)) }
        result := .ok {} } := by
  have hlen : 0 + (m.memory.block m.index (x + 1)).length ≤ 16 := by
    rw [Bank.length_block h]
    omega
  simp only [execute, loadRegisters, bind_assoc, look_bind_apply, count_eq_pure hx, pure_bind,
    checkRange_eq_pure h, readBlock_eq_look h, Bank.setBlock?_eq_some hlen, demand_some,
    change_bind_apply, pure_apply]

theorem execute_loadRegisters_outOfBounds {x : Nat} (hx : x < 16) (hi : m.index < memorySize)
    (h : memorySize < m.index + (x + 1)) :
    execute (.loadRegisters x) m =
      { machine := m, result := .error (.outOfBounds m.index (x + 1)) } := by
  have hcount : x + 1 ≤ memorySize := Nat.le_trans hx (by decide)
  simp only [execute, loadRegisters, bind_assoc, look_bind_apply, count_eq_pure hx, pure_bind,
    checkRange_eq_fail hi hcount h, fail_bind, fail_apply]

/-! ## Drawing -/

theorem execute_draw {x y n : Nat} (hx : x < 16) (hy : y < 16) (h : m.index + n ≤ memorySize) :
    execute (.draw x y n) m = { machine := m.drawn x y n, result := .ok { hint := .redraw } } := by
  rw [execute, bind_of_apply (draw_apply hx hy h), pure_apply]

theorem execute_draw_outOfBounds {x y n : Nat} (hx : x < 16) (hy : y < 16)
    (hi : m.index < memorySize) (hn : n ≤ memorySize) (h : memorySize < m.index + n) :
    execute (.draw x y n) m = { machine := m, result := .error (.outOfBounds m.index n) } := by
  have hm' := draw_apply_outOfBounds hx hy hi hn h
  rw [execute, bind_of_error (by rw [hm']), hm']

end Work

end SpriteVM
