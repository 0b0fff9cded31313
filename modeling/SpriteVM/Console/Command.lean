import SpriteVM.Keyboard
import SpriteVM.Text.Blank
import SpriteVM.Text.Numeral

/-!
# Commands

What can be typed at the prompt. The first word of a line names a `Verb`, by its long or its short
name; all words after it are numbers, in decimal or with `0x` in hexadecimal. `Command.parse` reads a
line. Of several mistakes the first of these is reported: no word at all, a word that should be a
number and is not, an unknown name, numbers that do not suit the verb.
-/

namespace SpriteVM

open Numeral

/-! ## Verbs -/

/-- The things to ask for. -/
inductive Verb where
  /-- to list instructions -/
  | disassemble
  /-- to show the registers -/
  | registers
  /-- to run steps -/
  | step
  /-- to show the display -/
  | video
  /-- to show bytes of memory -/
  | dump
  /-- to put a key down -/
  | press
  /-- to let a key up -/
  | release
  /-- to count the timers down -/
  | tick
  /-- to show this list -/
  | help
  /-- to end the session -/
  | quit
  deriving DecidableEq, Repr

namespace Verb

/-- All verbs, in the order of the help text. -/
def all : List Verb :=
  [.disassemble, .registers, .step, .video, .dump, .press, .release, .tick, .help, .quit]

/-- The long name of a verb. -/
def name : Verb → String
  | .disassemble => "disassemble"
  | .registers => "registers"
  | .step => "step"
  | .video => "video"
  | .dump => "dump"
  | .press => "press"
  | .release => "release"
  | .tick => "tick"
  | .help => "help"
  | .quit => "quit"

/-- The short name of a verb. -/
def shortName : Verb → String
  | .disassemble => "di"
  | .registers => "r"
  | .step => "s"
  | .video => "v"
  | .dump => "du"
  | .press => "p"
  | .release => "re"
  | .tick => "t"
  | .help => "h"
  | .quit => "q"

/-- What the help text tells about a verb. -/
def usage : Verb → String
  | .disassemble => "Disassemble: disassemble addr [count=16]"
  | .registers => "Examine registers"
  | .step => "One CPU step: step [count=1]"
  | .video => "Examine video memory contents"
  | .dump => "Dump memory: dump addr [count=16]"
  | .press => "Press a key: press key"
  | .release => "Release a key: release key"
  | .tick => "Tick the timers: tick [count=1]"
  | .help => "This help"
  | .quit => "Quit"

/-- The verb with a name. -/
def ofName? (word : String) : Option Verb :=
  all.find? fun v => v.name == word || v.shortName == word

end Verb

/-! ## Mistakes -/

/-- Why a line is no command. -/
inductive CommandError where
  /-- there is no word -/
  | empty
  /-- no verb has this name -/
  | unknown (word : String)
  /-- the verb takes another number of arguments -/
  | wrongCount
  /-- the verb takes no arguments -/
  | noArguments
  /-- an argument is not a number -/
  | notANumber (word : String)
  /-- the keyboard has no such key -/
  | noSuchKey (key : Nat)
  deriving DecidableEq, Repr

/-- The wording of a mistake. -/
def CommandError.message : CommandError → String
  | .empty => "No command given."
  | .unknown word => "Unknown command " ++ word
  | .wrongCount => "Bad arguments, see 'help' for usage: wrong number of arguments"
  | .noArguments => "Bad arguments, see 'help' for usage: this command require no arguments"
  | .notANumber word => "Bad arguments, see 'help' for usage: '" ++ word ++ "' is not a number"
  | .noSuchKey key => "There is no key " ++ hex 1 key ++ ", keys range from 0x0 to 0xF"

/-! ## Commands -/

/-- A verb with its arguments. -/
inductive Command where
  /-- list instructions -/
  | disassemble (address count : Nat)
  /-- show the registers -/
  | registers
  /-- run steps -/
  | step (count : Nat)
  /-- show the display -/
  | video
  /-- show bytes of memory -/
  | dump (address count : Nat)
  /-- put a key down -/
  | press (key : Nat)
  /-- let a key up -/
  | release (key : Nat)
  /-- count the timers down -/
  | tick (count : Nat)
  /-- show the help text -/
  | help
  /-- end the session -/
  | quit
  deriving DecidableEq, Repr

namespace Command

/-- The number of words or bytes shown when none is given. -/
def defaultCount : Nat := 16

/-- The value of an argument. -/
def number? (word : List Char) : Option Nat :=
  match word with
  | '0' :: 'x' :: digits | '0' :: 'X' :: digits => read? 16 digits
  | _ => read? 10 word

/-- The values of all arguments, or the first one that has none. -/
def numbers : List (List Char) → Except CommandError (List Nat)
  | [] => .ok []
  | word :: words =>
    match number? word with
    | none => .error (.notANumber (String.ofList word))
    | some n => (numbers words).map (n :: ·)

/-- A verb without arguments. -/
def bare (c : Command) : List Nat → Except CommandError Command
  | [] => .ok c
  | _ => .error .noArguments

/-- A verb with an address and perhaps a count. -/
def ranged (c : Nat → Nat → Command) : List Nat → Except CommandError Command
  | [address] => .ok (c address defaultCount)
  | [address, count] => .ok (c address count)
  | _ => .error .wrongCount

/-- A verb with perhaps a count, which is otherwise one. -/
def counted (c : Nat → Command) : List Nat → Except CommandError Command
  | [] => .ok (c 1)
  | [count] => .ok (c count)
  | _ => .error .wrongCount

/-- A verb with a key. -/
def keyed (c : Nat → Command) : List Nat → Except CommandError Command
  | [key] => if key < Keyboard.size then .ok (c key) else .error (.noSuchKey key)
  | _ => .error .wrongCount

/-- The command of a verb and its arguments. -/
def ofVerb (args : List Nat) : Verb → Except CommandError Command
  | .disassemble => ranged .disassemble args
  | .registers => bare .registers args
  | .step => counted .step args
  | .video => bare .video args
  | .dump => ranged .dump args
  | .press => keyed .press args
  | .release => keyed .release args
  | .tick => counted .tick args
  | .help => bare .help args
  | .quit => bare .quit args

/-- The command of a list of words. -/
def ofWords : List (List Char) → Except CommandError Command
  | [] => .error .empty
  | name :: words =>
    match numbers words with
    | .error e => .error e
    | .ok args =>
      match Verb.ofName? (String.ofList name) with
      | none => .error (.unknown (String.ofList name))
      | some v => ofVerb args v

/-- The command of a line. -/
def parse (line : String) : Except CommandError Command :=
  ofWords (Blank.words line.toList)

/-- Named values between braces. -/
def fieldsText (fields : List (String × Nat)) : String :=
  " \x7b " ++ ", ".intercalate (fields.map fun f => f.1 ++ ": " ++ decimal f.2) ++ " \x7d"

/-- A command as the log shows it, with the names of its arguments. -/
def logText : Command → String
  | .disassemble address count =>
    "Disassemble" ++ fieldsText [("address", address), ("count", count)]
  | .registers => "Registers"
  | .step count => "Step" ++ fieldsText [("count", count)]
  | .video => "Video"
  | .dump address count => "Dump" ++ fieldsText [("address", address), ("count", count)]
  | .press key => "Press" ++ fieldsText [("key", key)]
  | .release key => "Release" ++ fieldsText [("key", key)]
  | .tick count => "Tick" ++ fieldsText [("count", count)]
  | .help => "Help"
  | .quit => "Quit"

end Command

end SpriteVM
