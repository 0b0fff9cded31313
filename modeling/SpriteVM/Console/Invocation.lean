import SpriteVM.Console.Session
import SpriteVM.File.Rom

/-!
# The command line

The program takes the path of a ROM and perhaps a seed for the random source, and holds a session
with a machine on standard input and output. The arguments are read from left to right and the first
one that decides the matter wins: a mistake ends the program with a usage error, and a request for
help or for the version is granted at once.

An option that still waits for its value gets the next argument, unless that begins an option; a
lone `-` begins none. Behind `--` every argument is a path.

The wording of the help and of the usage errors is left open, and so is the random source of a seed:
`Invocation.run` takes the sources to choose from as a parameter.
-/

namespace SpriteVM

open Numeral

/-! ## Arguments -/

/-- What the arguments ask for. -/
inductive Invocation where
  /-- to tell how the program is used -/
  | help
  /-- to name the program and its version -/
  | version
  /-- to hold a session with the ROM at a path -/
  | session (path : String) (seed? : Option Nat)
  /-- nothing that makes sense -/
  | usageError
  deriving DecidableEq, Repr

/-- What one argument is. -/
inductive Argument where
  /-- the mark behind which there are no options -/
  | endOfOptions
  /-- a request for help -/
  | help
  /-- a request for the version -/
  | version
  /-- the seed, with its value when that is attached -/
  | seed (value? : Option String)
  /-- an option that does not exist -/
  | unknown
  /-- neither an option nor the mark -/
  | plain (value : String)
  deriving DecidableEq, Repr

namespace Argument

/-- The text behind the beginning `start`. -/
def behind? (start : String) (s : String) : Option String :=
  (start.toList.isPrefixOf? s.toList).map String.ofList

/-- What a group of letters behind a single dash asks for. The first letter decides, and those behind
it are not looked at any more. -/
def ofLetters (letters : String) : Argument :=
  if (behind? "h" letters).isSome then .help
  else if (behind? "V" letters).isSome then .version
  else .unknown

/-- What an argument is. -/
def ofString (s : String) : Argument :=
  if s = "--" then .endOfOptions
  else if s = "--help" then .help
  else if s = "--version" then .version
  else if s = "--seed" then .seed none
  else
    match behind? "--seed=" s with
    | some value => .seed (some value)
    | none =>
      if (behind? "--" s).isSome then .unknown
      else
        match behind? "-" s with
        | none | some "" => .plain s
        | some letters => ofLetters letters

end Argument

namespace Invocation

/-- The value of a seed: a decimal number that fits a machine word. -/
def seedValue? (s : String) : Option Nat :=
  read? 10 s.toList

/-- What is known from the arguments read so far. -/
structure Scan where
  /-- the path -/
  path? : Option String := none
  /-- the seed -/
  seed? : Option Nat := none
  deriving DecidableEq, Repr

/-- Takes a path; there may only be one, and it may not be empty. -/
def Scan.withPath? (scan : Scan) (path : String) : Option Scan :=
  if scan.path? = none ∧ path ≠ "" then some { scan with path? := some path } else none

/-- Takes a seed; there may only be one, and it must be a number. -/
def Scan.withSeed? (scan : Scan) (value : String) : Option Scan :=
  if scan.seed? = none then
    (seedValue? value).map fun seed => { scan with seed? := some seed }
  else none

/-- What the whole command line asks for, once every argument is read. -/
def Scan.finish (scan : Scan) : Invocation :=
  match scan.path? with
  | some path => .session path scan.seed?
  | none => .usageError

/-- Reads arguments that can only be paths. -/
def readPaths (scan : Scan) : List String → Invocation
  | [] => scan.finish
  | arg :: args =>
    match scan.withPath? arg with
    | some scan => readPaths scan args
    | none => .usageError

/-- Reads arguments. -/
def readAll (scan : Scan) : List String → Invocation
  | [] => scan.finish
  | arg :: args =>
    match Argument.ofString arg with
    | .endOfOptions => readPaths scan args
    | .help => .help
    | .version => .version
    | .unknown => .usageError
    | .plain path =>
      match scan.withPath? path with
      | some scan => readAll scan args
      | none => .usageError
    | .seed (some value) =>
      match scan.withSeed? value with
      | some scan => readAll scan args
      | none => .usageError
    | .seed none =>
      match args with
      | [] => .usageError
      | value :: args =>
        match Argument.ofString value, scan.withSeed? value with
        | .plain _, some scan => readAll scan args
        | _, _ => .usageError

/-- What the arguments ask for. -/
def parse (args : List String) : Invocation :=
  readAll {} args

end Invocation

/-! ## Running -/

/-- How the program ended. -/
inductive Exit where
  /-- it told how it is used -/
  | help
  /-- it did what was asked -/
  | success (output : String)
  /-- it gave up with a complaint, perhaps after some output -/
  | failure (output complaint : String)
  /-- the arguments make no sense -/
  | usageError
  deriving DecidableEq, Repr

namespace Exit

/-- The exit code. -/
def code : Exit → Nat
  | .help | .success _ => 0
  | .failure .. => 1
  | .usageError => 2

/-- What was written to standard output, as far as that is laid down. -/
def output? : Exit → Option String
  | .help => none
  | .success output | .failure output _ => some output
  | .usageError => some ""

/-- The form of a complaint. -/
def complaintText (complaint : String) : String :=
  Layout.line ("Error: " ++ complaint)

/-- What was written to standard error, as far as that is laid down. -/
def errors? : Exit → Option String
  | .help | .success _ => some ""
  | .failure _ complaint => some (complaintText complaint)
  | .usageError => none

end Exit

namespace Invocation

/-- The name of the program and its version. -/
def versionLine : String :=
  Layout.line "chip8-debugger 0.6.0"

/-- The complaint about a ROM that cannot be read. -/
def readComplaint (path cause : String) : String :=
  "Failed to read ROM file " ++ path ++ "\n\nCaused by:\n    " ++ cause

/-- The machine of a session: the usual display, no key down, and the ROM at the start. -/
def bootFile (path : String) (contents : List UInt8) (random : ByteSource) :
    Except Machine.LoadError Machine :=
  Machine.boot (Rom.ofFile path contents) .standard .released random

/-- A session with the ROM in a file. -/
def runSession (path : String) (contents : Except ReadError (List UInt8)) (random : ByteSource)
    (input : List UInt8) : Exit :=
  match contents with
  | .error e => .failure "" (readComplaint path e.message)
  | .ok contents =>
    match bootFile path contents random with
    | .error e => .failure "" e.message
    | .ok machine =>
      let transcript := machine.converse input
      match transcript.ending.error? with
      | none => .success transcript.text
      | some e => .failure transcript.text e

/-- Runs the program on a tree of files and a stream of input. `random` gives the random source of
every seed, and the one in use when no seed is given. -/
def run (invocation : Invocation) (tree : FileTree) (random : Option UInt64 → ByteSource)
    (input : List UInt8) : Exit :=
  match invocation with
  | .help => .help
  | .version => .success versionLine
  | .session path seed? =>
    runSession path (tree.read path) (random (seed?.map UInt64.ofNat)) input
  | .usageError => .usageError

end Invocation

end SpriteVM
