import SpriteVM.Instruction.Mnemonic

/-!
# Log messages

What the machine tells about its work while it works. A message is kept as the event that it
reports; `Message.text` words it and `Message.level` says how much it matters.
-/

namespace SpriteVM

open Numeral

/-- How much a message matters. -/
inductive Level where
  /-- regular beats -/
  | trace
  /-- single steps -/
  | debug
  /-- a program that does something without effect -/
  | warn
  deriving DecidableEq, Repr

/-- The name of a level. -/
def Level.name : Level → String
  | .trace => "TRACE"
  | .debug => "DEBUG"
  | .warn => "WARN"

/-- An event worth a line in the log. -/
inductive Message where
  /-- a ROM was read from a file -/
  | romRead (name : String) (size : Nat)
  /-- a ROM was put into memory -/
  | romLoaded (name : String) (size : Nat)
  /-- an instruction is about to be executed -/
  | executing (address : Nat) (word : Word) (instruction : Instruction)
  /-- an awaited key went into a register -/
  | keyStored (key register : Nat)
  /-- a native routine was called -/
  | routineIgnored (address : Nat)
  /-- a subroutine ended -/
  | returned (address : Nat)
  /-- a register that should name a key does not -/
  | notAKey (register : Nat) (value : UInt8)
  /-- a register that should name a glyph does not -/
  | noGlyph (register : Nat) (value : UInt8)
  /-- a key outside the keyboard was pressed or released -/
  | noKeyToSet (key : Nat)
  /-- a key outside the keyboard was toggled -/
  | noKeyToToggle (key : Nat)
  /-- both timers counted down -/
  | ticked (delay sound : UInt8)
  deriving DecidableEq, Repr

namespace Message

/-- The level of a message. -/
def level : Message → Level
  | .ticked .. => .trace
  | .romRead .. | .romLoaded .. | .executing .. | .keyStored .. | .returned _ => .debug
  | .routineIgnored _ | .notAKey .. | .noGlyph .. | .noKeyToSet _ | .noKeyToToggle _ => .warn

/-- The wording of a message. -/
def text : Message → String
  | .romRead name size => "read rom " ++ name ++ " with " ++ decimal size ++ " bytes"
  | .romLoaded name size => "loaded rom " ++ name ++ " with " ++ decimal size ++ " bytes"
  | .executing address word instruction =>
    addressText address ++ ": " ++ addressText word.toNat ++ " " ++ instruction.mnemonic
  | .keyStored key register =>
    "key " ++ hex 1 key ++ " pressed, stored into " ++ registerName register
  | .routineIgnored address => "ignoring machine code routine at " ++ addressText address
  | .returned address => "return to " ++ addressText address
  | .notAKey register value =>
    registerName register ++ " holds " ++ byteText value ++ ", which is not a key"
  | .noGlyph register value =>
    registerName register ++ " holds " ++ byteText value ++ ", which has no font sprite"
  | .noKeyToSet key => "there is no key " ++ hex 1 key ++ " to set"
  | .noKeyToToggle key => "there is no key " ++ hex 1 key ++ " to toggle"
  | .ticked delay sound =>
    "timers ticked delay " ++ decimal delay.toNat ++ " sound " ++ decimal sound.toNat

/-- A message as a line of the log, led by its level. -/
def entry (m : Message) : String :=
  m.level.name ++ " " ++ m.text

end Message

end SpriteVM
