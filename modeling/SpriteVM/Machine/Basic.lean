import SpriteVM.Bank
import SpriteVM.ByteSource
import SpriteVM.Display
import SpriteVM.Fetch
import SpriteVM.Glyph
import SpriteVM.Keyboard
import SpriteVM.Rom
import SpriteVM.Timer

/-!
# The machine

The state of the machine, and the machine before any program is in it. What is done to a machine
stands in the other modules of this directory.
-/

namespace SpriteVM

open Numeral

/-! ## Addresses -/

/-- The number of bytes of memory. -/
def memorySize : Nat := 0x1000

/-- The address of the first instruction of a program. -/
def programStart : Nat := 0x200

/-- The number of bytes that a program may have. -/
def programLimit : Nat := memorySize - programStart

/-- The number of bytes of an instruction word. -/
def wordSize : Nat := 2

/-- The number of return addresses that may be remembered. -/
def stackLimit : Nat := 16

/-- The number of the register that takes flags. -/
def flagRegister : Nat := 0xF

/-- An address within memory: only the low twelve bits of a number count. -/
def wrap (a : Nat) : Nat :=
  a % memorySize

/-! ## State -/

/-- The memory of the machine. -/
abbrev Memory := Bank memorySize

/-- The registers `V0` to `VF`. -/
abbrev Registers := Bank 16

/-- What the machine does with its next step. -/
inductive Activity where
  /-- it executes the next instruction -/
  | running
  /-- it looks for a key that is down, to put it into a register -/
  | awaitingKey (register : Nat)
  deriving DecidableEq, Repr

/-- The wording of an activity. -/
def Activity.text : Activity → String
  | .running => "Running"
  | .awaitingKey register => "Awaiting key for " ++ registerName register

/-- How an instruction leaves the program counter, which already points past it. -/
inductive Flow where
  /-- at the following instruction -/
  | next
  /-- behind the following instruction -/
  | skip
  /-- somewhere else -/
  | jump (target : Nat)
  deriving DecidableEq, Repr

/-- Passes over the following instruction when the condition holds. -/
def Flow.skipIf (condition : Bool) : Flow :=
  if condition then .skip else .next

/-- What a step asks of whoever runs the machine. -/
inductive Hint where
  /-- nothing -/
  | idle
  /-- to wait for a key -/
  | wait
  /-- to show the display again -/
  | redraw
  deriving DecidableEq, Repr

/-- The complete state of a machine. -/
structure Machine where
  /-- the name of the loaded program -/
  name : String
  /-- the word that was fetched last -/
  word : Word
  /-- glyphs below `programStart`, program and work area above -/
  memory : Memory
  /-- the data registers; the last one also takes flags -/
  registers : Registers
  /-- the index register, the address that memory instructions use -/
  index : Nat
  /-- the address of the next instruction -/
  counter : Nat
  /-- the return addresses, the latest first -/
  stack : List Nat
  /-- the timer that programs read -/
  delay : Timer
  /-- the timer that sounds while it runs -/
  sound : Timer
  /-- what the next step does -/
  activity : Activity
  /-- the picture -/
  display : Display
  /-- the keys -/
  keyboard : Keyboard
  /-- where random bytes come from -/
  random : ByteSource

namespace Machine

/-- The machine without a program: only the glyphs are in memory. -/
def blank (display : Display) (keyboard : Keyboard) (random : ByteSource) : Machine where
  name := ""
  word := 0
  memory := Bank.zero.fill Glyph.location Glyph.rows
  registers := Bank.zero
  index := 0
  counter := programStart
  stack := []
  delay := {}
  sound := {}
  activity := .running
  display := display
  keyboard := keyboard
  random := random

/-- The glyphs are put into memory as a whole. -/
theorem setBlock?_glyphs (display : Display) (keyboard : Keyboard) (random : ByteSource) :
    Bank.zero.setBlock? Glyph.location Glyph.rows =
      some (blank display keyboard random).memory :=
  Bank.setBlock?_eq_some (by decide)

/-- Counts both timers down by one. -/
def tick (m : Machine) : Machine :=
  { m with delay := m.delay.tick, sound := m.sound.tick }

end Machine

end SpriteVM
