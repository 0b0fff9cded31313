import SpriteVM.Console.Command
import SpriteVM.Inspect.Dump
import SpriteVM.Inspect.Listing
import SpriteVM.Machine.Action

/-!
# Carrying out commands

What a command does to the machine, what it prints and what it logs. Printing and stepping go hand in
hand in `walk`: before each step stands what is about to happen, and an error ends the walk.
-/

namespace SpriteVM

open Numeral Layout

/-- The state after a command, what the command printed and what it logged. -/
structure Response where
  /-- the state after the command -/
  machine : Machine
  /-- the printed lines, each without its line feed -/
  lines : List String := []
  /-- the log, in order -/
  log : List Message := []

namespace Machine

/-! ## What is shown -/

/-- A line of a listing, marked when it is the instruction that comes next. -/
def markedEntry (m : Machine) (e : ListingEntry) : String :=
  e.text ++ if e.address = m.counter then " <<<" else ""

/-- The lines of a listing. -/
def listingLines (m : Machine) (start count : Nat) : List String :=
  (m.listing start count).map m.markedEntry

/-- The lines that show the data registers from number `x` on. -/
def registerLines (x : Nat) : List UInt8 → List String
  | [] => []
  | v :: vs => (registerName x ++ ": " ++ byteText v) :: registerLines (x + 1) vs

/-- The lines that show the processor. -/
def processorLines (m : Machine) : List String :=
  registerLines 0 m.registers.toList ++
    ["I: " ++ addressText m.index,
     "DT: " ++ byteText m.delay.value,
     "ST: " ++ byteText m.sound.value,
     "PC: " ++ addressText m.counter,
     "SP: " ++ hex 2 m.stack.length,
     "State: " ++ m.activity.text]

/-- What the next step is about to do: the instruction at the program counter, if there is a word at
all, or that a key is awaited. -/
def preview (m : Machine) : List String :=
  match m.activity with
  | .running => m.listingLines m.counter 1
  | .awaitingKey _ => [m.activity.text]

/-! ## What is done -/

/-- Up to `count` steps, each with its preview, until one fails. The error is the last line. -/
def walk (m : Machine) : Nat → Response
  | 0 => { machine := m }
  | count + 1 =>
    let turn := m.next
    match turn.result with
    | .error e =>
      { machine := turn.machine, lines := m.preview ++ [e.message], log := turn.log }
    | .ok _ =>
      let rest := turn.machine.walk count
      { machine := rest.machine
        lines := m.preview ++ rest.lines
        log := turn.log ++ rest.log }

/-- Counts the timers down `count` times. -/
def tickMany (m : Machine) : Nat → Response
  | 0 => { machine := m }
  | count + 1 =>
    let report := m.act .tick
    let rest := report.machine.tickMany count
    { rest with log := report.log ++ rest.log }

/-- Changes the keyboard. -/
def editKeys (m : Machine) (e : Keyboard.Edit) : Response :=
  let report := m.act (.edit e)
  { machine := report.machine, log := report.log }

end Machine

/-- The help line of a verb. -/
def Verb.helpLine (v : Verb) : String :=
  padRight 12 v.name ++ " " ++ padRight 3 v.shortName ++ " " ++ v.usage

/-- Carries out a command. -/
def Command.respond (m : Machine) : Command → Response
  | .disassemble address count => { machine := m, lines := m.listingLines address count }
  | .registers => { machine := m, lines := m.processorLines }
  | .step count => m.walk count
  | .video => { machine := m, lines := [m.display.text] }
  | .dump address count => { machine := m, lines := [Dump.text m.memory address count] }
  | .press key => m.editKeys (.press key)
  | .release key => m.editKeys (.release key)
  | .tick count => m.tickMany count
  | .help => { machine := m, lines := Verb.all.map Verb.helpLine }
  | .quit => { machine := m }

end SpriteVM
