import SpriteVM.Instruction.Decode
import SpriteVM.StepError

/-!
# Fetching

From bytes to words and from words to instructions, with the reason when there is none.
-/

namespace SpriteVM

/-- The word at a position of a byte sequence. -/
def fetch (bytes : Array UInt8) (position : Nat) : Except StepError Word :=
  match Word.at? bytes position with
  | some w => .ok w
  | none => .error (.noWord position bytes.size)

/-- The instruction of a word. -/
def decode (w : Word) : Except StepError Instruction :=
  match Instruction.ofWord? w with
  | some i => .ok i
  | none => .error (.invalidWord w)

theorem decode_eq_ok {w : Word} {i : Instruction} :
    decode w = .ok i ↔ Instruction.ofWord? w = some i := by
  rw [decode]
  cases Instruction.ofWord? w <;> simp

theorem decode_eq_error {w : Word} {e : StepError} :
    decode w = .error e ↔ Instruction.ofWord? w = none ∧ e = .invalidWord w := by
  rw [decode]
  cases Instruction.ofWord? w <;> simp [eq_comm]

end SpriteVM
