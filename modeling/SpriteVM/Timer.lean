/-!
# Timers

A timer holds a byte and counts down to zero, one for each tick. It has no clock of its own: whoever
runs the machine ticks it.
-/

namespace SpriteVM

/-- A count-down timer. -/
structure Timer where
  /-- the ticks that are left -/
  value : UInt8 := 0
  deriving DecidableEq, Repr

namespace Timer

/-- Counts down by one; a timer at zero stays there. -/
def tick (t : Timer) : Timer :=
  ⟨UInt8.ofNat (t.value.toNat - 1)⟩

/-- Counts down by `k`. -/
def ticks : Nat → Timer → Timer
  | 0, t => t
  | k + 1, t => ticks k t.tick

theorem value_tick (t : Timer) : t.tick.value.toNat = t.value.toNat - 1 := by
  have := t.value.toNat_lt
  simp [tick]
  omega

/-- After `k` ticks a timer has `k` less left, or nothing. -/
theorem value_ticks (k : Nat) (t : Timer) : (t.ticks k).value.toNat = t.value.toNat - k := by
  induction k generalizing t with
  | zero => rfl
  | succ k ih => rw [ticks, ih, value_tick]; omega

end Timer

end SpriteVM
