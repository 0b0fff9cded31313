import SpriteVM.Machine.Execute

/-!
# Steps

`Machine.next` is one beat of the machine: it fetches, decodes and executes an instruction, or looks
at the keyboard while a key is awaited. A failed step still has a state after it: the word that did
not decode is remembered, and an instruction that failed was already passed over.
-/

namespace SpriteVM

namespace Work

/-- Executes an instruction and moves the program counter as it says. -/
def perform (i : Instruction) : Work StepError Hint := do
  let effect ← execute i
  follow effect.flow
  return effect.hint

/-- Puts the lowest key that is down into a register and goes on; waits when there is none. -/
def poll (register : Nat) : Work StepError Hint := do
  match ← look fun m => m.keyboard.lowest? with
  | none => return .wait
  | some key =>
    say (.keyStored key register)
    setRegister register (UInt8.ofNat key)
    change fun m => { m with activity := .running }
    return .idle

/-- Fetches the word at the program counter and remembers it. -/
def fetchWord : Work StepError Word := do
  let word ← settle (← look fun m => fetch m.memory.cells.toArray m.counter)
  change fun m => { m with word }
  return word

/-- Fetches and executes the instruction at the program counter. The program counter moves on before
the instruction runs. -/
def cycle : Work StepError Hint := do
  let word ← fetchWord
  let i ← settle (decode word)
  say (.executing (← look Machine.counter) word i)
  -- before the instruction runs, so that a call remembers the address behind itself
  advance
  perform i

end Work

namespace Machine

/-- One step of the machine. -/
def next (m : Machine) : Turn StepError Hint :=
  match m.activity with
  | .running => Work.cycle m
  | .awaitingKey register => Work.poll register m

/-- Up to `count` steps in a row. A step that fails is the last one. -/
def steps (m : Machine) : Nat → List (Turn StepError Hint)
  | 0 => []
  | count + 1 =>
    let turn := m.next
    match turn.result with
    | .ok _ => turn :: turn.machine.steps count
    | .error _ => [turn]

end Machine

end SpriteVM
