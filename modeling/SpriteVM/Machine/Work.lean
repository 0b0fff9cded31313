import SpriteVM.Machine.Basic

/-!
# Work on a machine

Whatever the machine does is a sequence of small accesses: look at a register, make sure that a
stretch of memory exists, write. `Work` is the monad of such sequences. Work may fail in the middle,
and then everything it wrote and logged before that point stays. Whether an instruction looks at all
it needs before it writes is therefore a property of its sequence of accesses.

The first section has the monad, the second the accesses.
-/

namespace SpriteVM

open Numeral

/-- The state after some work, what came of it and what it logged. -/
structure Turn (ε α : Type) where
  /-- the state after the work -/
  machine : Machine
  /-- what came of the work, or why it failed -/
  result : Except ε α
  /-- what the work logged, in order -/
  log : List Message := []

/-- Work on a machine that fails with an `ε` or gives an `α`. -/
def Work (ε α : Type) : Type :=
  Machine → Turn ε α

namespace Work

variable {ε α β : Type}

/-! ## The monad -/

/-- Do nothing and hand back a value. -/
protected def pure (a : α) : Work ε α := fun m => { machine := m, result := .ok a }

/-- One piece of work after another. The second one does not take place when the first one fails. -/
protected def bind (w : Work ε α) (f : α → Work ε β) : Work ε β := fun m =>
  let first := w m
  match first.result with
  | .ok a =>
    let second := f a first.machine
    { second with log := first.log ++ second.log }
  | .error e => { machine := first.machine, result := .error e, log := first.log }

instance : Monad (Work ε) where
  pure := Work.pure
  bind := Work.bind

/-- Give up. -/
def fail (e : ε) : Work ε α := fun m => { machine := m, result := .error e }

/-- Read something off the machine. -/
def look (f : Machine → α) : Work ε α := fun m => { machine := m, result := .ok (f m) }

/-- Write to the machine. -/
def change (f : Machine → Machine) : Work ε Unit := fun m => { machine := f m, result := .ok () }

/-- Log a message. -/
def say (message : Message) : Work ε Unit :=
  fun m => { machine := m, result := .ok (), log := [message] }

/-- The value that there should be. -/
def demand (value? : Option α) (e : ε) : Work ε α :=
  match value? with
  | some a => pure a
  | none => fail e

/-- Take over what was found out without the machine. -/
def settle (x : Except ε α) : Work ε α :=
  match x with
  | .ok a => pure a
  | .error e => fail e

/-! ### Equations

What the single pieces of work lead to, alone and in front of further work. -/

@[simp] theorem pure_apply (a : α) (m : Machine) :
    (pure a : Work ε α) m = { machine := m, result := .ok a } := rfl

@[simp] theorem fail_apply (e : ε) (m : Machine) :
    (fail e : Work ε α) m = { machine := m, result := .error e } := rfl

@[simp] theorem look_apply (f : Machine → α) (m : Machine) :
    (look f : Work ε α) m = { machine := m, result := .ok (f m) } := rfl

@[simp] theorem change_apply (f : Machine → Machine) (m : Machine) :
    (change f : Work ε Unit) m = { machine := f m, result := .ok () } := rfl

@[simp] theorem fail_bind (e : ε) (f : α → Work ε β) : fail e >>= f = fail e := rfl

@[simp] theorem look_bind_apply (g : Machine → α) (f : α → Work ε β) (m : Machine) :
    (look g >>= f) m = f (g m) m := rfl

@[simp] theorem change_bind_apply (g : Machine → Machine) (f : Unit → Work ε β) (m : Machine) :
    (change g >>= f) m = f () (g m) := rfl

@[simp] theorem say_bind_apply (message : Message) (f : Unit → Work ε β) (m : Machine) :
    (say message >>= f) m = { f () m with log := message :: (f () m).log } := rfl

@[simp] theorem demand_some (a : α) (e : ε) : demand (some a) e = pure a := rfl

@[simp] theorem demand_none (e : ε) : (demand none e : Work ε α) = fail e := rfl

@[simp] theorem settle_ok (a : α) : (settle (.ok a) : Work ε α) = pure a := rfl

@[simp] theorem settle_error (e : ε) : (settle (.error e) : Work ε α) = fail e := rfl

/-- Further work goes on where work that succeeded left off. -/
theorem bind_of_ok {w : Work ε α} {f : α → Work ε β} {m : Machine} {a : α}
    (h : (w m).result = .ok a) :
    (w >>= f) m =
      { f a (w m).machine with log := (w m).log ++ (f a (w m).machine).log } := by
  change Work.bind w f m = _
  simp only [Work.bind, h]

/-- Further work goes on where silent work left off. -/
theorem bind_of_apply {w : Work ε α} {f : α → Work ε β} {m m' : Machine} {a : α}
    (h : w m = { machine := m', result := .ok a }) : (w >>= f) m = f a m' := by
  rw [bind_of_ok (a := a) (by rw [h]), h]
  rfl

/-- No further work takes place after work that failed. -/
theorem bind_of_error {w : Work ε α} {f : α → Work ε β} {m : Machine} {e : ε}
    (h : (w m).result = .error e) :
    (w >>= f) m = { machine := (w m).machine, result := .error e, log := (w m).log } := by
  change Work.bind w f m = _
  simp only [Work.bind, h]

/-- Handing the value on adds nothing. -/
theorem bind_pure_id (w : Work ε α) : (w >>= fun a => pure (id a)) = w := by
  funext m
  cases h : (w m).result with
  | ok a => rw [bind_of_ok h, pure_apply, id, List.append_nil, ← h]
  | error e => rw [bind_of_error h, ← h]

/-- How a sequence is grouped does not matter. -/
theorem bind_assoc_eq {γ : Type} (w : Work ε α) (f : α → Work ε β) (g : β → Work ε γ) :
    (w >>= f) >>= g = w >>= fun a => f a >>= g := by
  funext m
  cases h : (w m).result with
  | error e => rw [bind_of_error h, bind_of_error (by rw [bind_of_error h]), bind_of_error h]
  | ok a =>
    have hw := bind_of_ok (f := f) h
    rw [bind_of_ok h]
    -- the second piece starts where `w` left off, whichever way it is grouped
    cases h' : (f a (w m).machine).result with
    | error e => rw [bind_of_error (by rw [hw, h']), bind_of_error h', hw]
    | ok b =>
      rw [bind_of_ok (a := b) (by rw [hw, h']), bind_of_ok h', hw]
      simp only [List.append_assoc]

instance : LawfulMonad (Work ε) :=
  LawfulMonad.mk' (Work ε) bind_pure_id (fun _ _ => rfl) bind_assoc_eq

/-! ## Accesses -/

/-- A sum that fits a machine word. -/
def sum (a b : Nat) : Work StepError Nat :=
  if a + b < wordLimit then pure (a + b) else fail (.fault (.sumTooLarge a b))

/-- The content of a register. -/
def register (x : Nat) : Work StepError UInt8 := do
  demand (← look fun m => m.registers.get? x) (.fault (.noRegister x))

/-- Puts a new content into a register. -/
def setRegister (x : Nat) (v : UInt8) : Work StepError Unit := do
  let registers ← demand (← look fun m => m.registers.set? x v) (.fault (.noRegister x))
  change fun m => { m with registers }

/-- Makes sure that a stretch of memory exists. -/
def checkRange (start count : Nat) : Work StepError Unit := do
  if memorySize < (← sum start count) then fail (.outOfBounds start count)

/-- The bytes in memory from `start` on. The stretch should have been checked. -/
def readBlock (fault : Fault → ε) (start count : Nat) : Work ε (List UInt8) := do
  demand (← look fun m => m.memory.block? start count) (fault (.noBlock start count))

/-- Puts new bytes into memory from `start` on. The stretch should have been checked. -/
def writeBlock (fault : Fault → ε) (start : Nat) (bytes : List UInt8) : Work ε Unit := do
  let memory ← demand (← look fun m => m.memory.setBlock? start bytes)
    (fault (.noBlock start bytes.length))
  change fun m => { m with memory }

/-- Remembers a return address. -/
def pushReturn (address : Nat) : Work StepError Unit := do
  if (← look fun m => m.stack.length) = stackLimit then fail .stackFull
  change fun m => { m with stack := address :: m.stack }

/-- Takes the latest return address away. -/
def popReturn : Work StepError Nat := do
  match ← look Machine.stack with
  | [] => fail .stackEmpty
  | address :: stack =>
    change fun m => { m with stack }
    return address

/-- Moves the program counter to an address. -/
def goTo (address : Nat) : Work ε Unit :=
  change fun m => { m with counter := wrap address }

/-- Moves the program counter past the word that it points at. -/
def advance : Work StepError Unit := do
  goTo (← sum (← look Machine.counter) wordSize)

/-- Moves the program counter as an instruction says. -/
def follow : Flow → Work StepError Unit
  | .next => do goTo (← look Machine.counter)
  | .skip => advance
  | .jump target => goTo target

end Work

end SpriteVM
