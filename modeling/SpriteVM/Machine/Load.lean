import SpriteVM.Machine.Work

/-!
# Loading

`Work.load` begins a session with a ROM and `Machine.boot` a machine with one. Loading clears the
program area and resets the processor; what lies below the program area, the display, the keyboard
and the random source stay.
-/

namespace SpriteVM

open Numeral

namespace Machine

/-- A ROM that does not fit the program area. -/
structure RomTooLarge where
  /-- the number of bytes it has -/
  size : Nat
  /-- the number of bytes it may have -/
  limit : Nat
  deriving DecidableEq, Repr

/-- Why a session did not begin. -/
inductive LoadError where
  /-- the ROM was refused -/
  | tooLarge (e : RomTooLarge)
  /-- a request that no ROM can make -/
  | fault (cause : Fault)
  deriving DecidableEq, Repr

/-- The wording of a refused ROM. -/
def RomTooLarge.message (e : RomTooLarge) : String :=
  "The rom is " ++ decimal e.size ++ " bytes long, but there is only space for "
    ++ decimal e.limit ++ " bytes."

/-- The wording of the reason why a session did not begin. -/
def LoadError.message : LoadError → String
  | .tooLarge e => e.message
  | .fault cause => cause.text

/-- The machine with the processor as it is before the first step of a program. -/
def reset (m : Machine) : Machine :=
  { m with
    word := 0
    registers := Bank.zero
    index := 0
    counter := programStart
    stack := []
    delay := {}
    sound := {}
    activity := .running }

end Machine

/-- Clears the program area and puts the bytes of a program there. -/
def Work.install (data : List UInt8) : Work Machine.LoadError Unit := do
  writeBlock .fault programStart (List.replicate programLimit 0)
  writeBlock .fault programStart data

/-- Begins a session with a ROM. -/
def Work.load (rom : Rom) : Work Machine.LoadError Unit := do
  if programLimit < rom.size then fail (.tooLarge ⟨rom.size, programLimit⟩)
  install rom.data
  change fun m => { m with name := rom.name }
  change Machine.reset
  say (.romLoaded rom.name rom.size)

/-- A machine at the start of a session with a ROM. -/
def Machine.boot (rom : Rom) (display : Display) (keyboard : Keyboard) (random : ByteSource) :
    Except LoadError Machine :=
  let turn := Work.load rom (blank display keyboard random)
  turn.result.map fun _ => turn.machine

end SpriteVM
