import SpriteVM.Machine.Step

/-!
# Accesses in range

What the accesses of `Work` are when they ask for something that exists. In range an access is a
mere look at the machine or a mere change of it, and both are total. The lemmas on single
instructions rewrite with these equations and so never open a check again.
-/

namespace SpriteVM

open Numeral

namespace Work

variable {ε α : Type} {m : Machine}

/-! ## Registers and sums -/

theorem sum_eq_pure {a b : Nat} (h : a + b < wordLimit) : sum a b = pure (a + b) := by
  rw [sum, if_pos h]

theorem register_eq_look {x : Nat} (hx : x < 16) :
    register x = look fun m => m.registers.cell x := by
  funext m
  rw [register, look_bind_apply, Bank.get?_eq_some hx, demand_some, pure_apply, look_apply]

theorem setRegister_eq_change {x : Nat} (hx : x < 16) (v : UInt8) :
    setRegister x v = change fun m => { m with registers := m.registers.put x v } := by
  funext m
  simp only [setRegister, look_bind_apply, Bank.set?_eq_some hx, demand_some, pure_bind,
    change_apply]

theorem setFlag_eq_change (v : UInt8) :
    setRegister flagRegister v =
      change fun m => { m with registers := m.registers.put flagRegister v } :=
  setRegister_eq_change (by decide) v

/-! ## Memory -/

/-- Memory is far smaller than the limit of a machine word. -/
theorem lt_wordLimit {a : Nat} (h : a ≤ memorySize) : a < wordLimit :=
  Nat.lt_of_le_of_lt h (by decide)

theorem add_lt_wordLimit {a b : Nat} (ha : a < memorySize) (hb : b ≤ memorySize) :
    a + b < wordLimit := by
  simp only [memorySize, wordLimit] at *
  omega

theorem checkRange_eq_pure {start count : Nat} (h : start + count ≤ memorySize) :
    checkRange start count = pure () := by
  rw [checkRange, sum_eq_pure (lt_wordLimit h), pure_bind, if_neg (Nat.not_lt.2 h)]

theorem checkRange_eq_fail {start count : Nat} (hs : start < memorySize) (hc : count ≤ memorySize)
    (h : memorySize < start + count) :
    checkRange start count = fail (.outOfBounds start count) := by
  rw [checkRange, sum_eq_pure (add_lt_wordLimit hs hc), pure_bind, if_pos h]

theorem readBlock_eq_look {fault : Fault → ε} {start count : Nat}
    (h : start + count ≤ memorySize) :
    readBlock fault start count = look fun m => m.memory.block start count := by
  funext m
  rw [readBlock, look_bind_apply, Bank.block?_eq_some h, demand_some, pure_apply, look_apply]

theorem writeBlock_eq_change {fault : Fault → ε} {start count : Nat} {bytes : List UInt8}
    (hlen : bytes.length = count) (h : start + count ≤ memorySize) :
    writeBlock fault start bytes =
      change fun m => { m with memory := m.memory.fill start bytes } := by
  subst count
  funext m
  simp only [writeBlock, look_bind_apply, Bank.setBlock?_eq_some h, demand_some, pure_bind,
    change_apply]

/-! ## Program counter -/

theorem advance_apply (h : m.counter < memorySize) :
    advance m =
      { machine := { m with counter := wrap (m.counter + wordSize) }, result := .ok () } := by
  rw [advance, look_bind_apply, sum_eq_pure (add_lt_wordLimit h (by decide)), pure_bind, goTo,
    change_apply]

/-- The place that a flow leads to. -/
def target (counter : Nat) : Flow → Nat
  | .next => wrap counter
  | .skip => wrap (counter + wordSize)
  | .jump address => wrap address

theorem follow_apply (h : m.counter < memorySize) (flow : Flow) :
    follow flow m =
      { machine := { m with counter := target m.counter flow }, result := .ok () } := by
  cases flow with
  | next => rfl
  | skip => rw [follow, advance_apply h, target]
  | jump address => rfl

end Work

end SpriteVM
