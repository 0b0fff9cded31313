import SpriteVM.Machine.Load
import SpriteVM.Machine.Step

/-!
# Actions of the host

Everything that a host can do to a machine, as one type. A session with a machine is a list of
actions; `Machine.act` carries one out and reports the state after it, what came of it and what was
logged.
-/

namespace SpriteVM

/-- Something that a host does to a machine. -/
inductive Action where
  /-- runs one step -/
  | next
  /-- counts the timers down by one -/
  | tick
  /-- begins a session with a ROM -/
  | load (rom : Rom)
  /-- changes the keyboard -/
  | edit (e : Keyboard.Edit)
  /-- moves the program counter -/
  | follow (flow : Flow)
  /-- executes an instruction that was not fetched -/
  | perform (i : Instruction)
  /-- applies the meaning of an instruction and leaves the program counter alone -/
  | execute (i : Instruction)
  deriving DecidableEq, Repr

/-- What comes of an action. -/
inductive Answer where
  /-- it is done and there is nothing to tell -/
  | done
  /-- a step succeeded -/
  | stepped (hint : Hint)
  /-- an instruction was applied -/
  | applied (flow : Flow) (hint : Hint)
  /-- a step failed -/
  | failed (e : StepError)
  /-- a ROM was refused -/
  | tooLarge (e : Machine.RomTooLarge)
  /-- a change of the keyboard was refused -/
  | badEdit
  deriving DecidableEq, Repr

/-- The state after an action, what came of it and what was logged. -/
structure Report where
  /-- the state after the action -/
  machine : Machine
  /-- what came of the action -/
  answer : Answer
  /-- what was logged, in order -/
  log : List Message := []

/-- The report of some work, with the wordings of its success and of its failure as answers. -/
def Turn.report {ε α : Type} (t : Turn ε α) (succeeded : α → Answer) (failed : ε → Answer) :
    Report where
  machine := t.machine
  answer := match t.result with
    | .ok a => succeeded a
    | .error e => failed e
  log := t.log

/-- The answer to an applied instruction. -/
def Effect.answer (effect : Effect) : Answer :=
  .applied effect.flow effect.hint

/-- The answer when a session does not begin. -/
def Machine.LoadError.answer : LoadError → Answer
  | .tooLarge e => .tooLarge e
  | .fault cause => .failed (.fault cause)

namespace Machine

/-- Changes the keyboard, as an action. -/
def actEdit (m : Machine) (e : Keyboard.Edit) : Report where
  machine := { m with keyboard := m.keyboard.apply e }
  answer := if e.accepted then .done else .badEdit
  log := e.warning?.toList

/-- Counts the timers down, as an action. -/
def actTick (m : Machine) : Report :=
  let ticked := m.tick
  { machine := ticked, answer := .done, log := [.ticked ticked.delay.value ticked.sound.value] }

/-- Carries out an action. -/
def act (m : Machine) : Action → Report
  | .next => m.next.report .stepped .failed
  | .tick => m.actTick
  | .load rom => (Work.load rom m).report (fun _ => .done) LoadError.answer
  | .edit e => m.actEdit e
  | .follow flow => (Work.follow flow m).report (fun _ => .done) .failed
  | .perform i => (Work.perform i m).report .stepped .failed
  | .execute i => (Work.execute i m).report Effect.answer .failed

/-- Carries out a list of actions, each on the state that the one before it left. -/
def reports (m : Machine) : List Action → List Report
  | [] => []
  | a :: as =>
    let report := m.act a
    report :: report.machine.reports as

/-- The state after a list of actions. -/
def run (m : Machine) : List Action → Machine
  | [] => m
  | a :: as => (m.act a).machine.run as

theorem run_append (m : Machine) (as bs : List Action) : m.run (as ++ bs) = (m.run as).run bs := by
  induction as generalizing m with
  | nil => rfl
  | cons a as ih => exact ih (m.act a).machine

end Machine

end SpriteVM
