import SpriteVM.Instruction.Mnemonic

/-!
# Errors of a step

Why the machine could not go on. The first constructors are states that a program can bring about.
The last one collects the `Fault`s, requests that only an instruction put together by hand can make:
no decoded program reaches them.
-/

namespace SpriteVM

open Numeral

/-- A request that the machine cannot even look at. -/
inductive Fault where
  /-- there is no register of this number -/
  | noRegister (number : Nat)
  /-- the bytes are not all in memory -/
  | noBlock (start count : Nat)
  /-- a pixel off the display was asked for -/
  | offDisplay
  /-- the sum does not fit a machine word -/
  | sumTooLarge (a b : Nat)
  deriving DecidableEq, Repr

/-- Why a step failed. -/
inductive StepError where
  /-- the word at the program counter is not an instruction -/
  | invalidWord (word : Word)
  /-- there is no word at the program counter -/
  | noWord (position size : Nat)
  /-- a call found no room for another return address -/
  | stackFull
  /-- a return found no return address -/
  | stackEmpty
  /-- an access runs past the end of memory -/
  | outOfBounds (start count : Nat)
  /-- a request that no program can make -/
  | fault (cause : Fault)
  deriving DecidableEq, Repr

/-- The wording of a fault. -/
def Fault.text : Fault → String
  | .noRegister number => "There is no register " ++ registerName number ++ "."
  | .noBlock start count =>
    "There are no " ++ decimal count ++ " bytes from " ++ addressText start ++ " on."
  | .offDisplay => "The pixel is not on the display."
  | .sumTooLarge a b => "The sum of " ++ decimal a ++ " and " ++ decimal b ++ " is too large."

namespace StepError

/-- The wording of the cause alone. -/
def text : StepError → String
  | .invalidWord word => "An unsupported opcode was used " ++ addressText word.toNat ++ "."
  | .noWord position size =>
    "Pointer location invalid there can not be an opcode at " ++ decimal position
      ++ ", if data len is " ++ decimal size
  | .stackFull => "Stack is full!"
  | .stackEmpty => "Stack is empty!"
  | .outOfBounds start count =>
    "Access of " ++ decimal count ++ " bytes from " ++ addressText start
      ++ " runs past the end of memory."
  | .fault cause => cause.text

/-- What the machine was doing when it failed. -/
def context : StepError → String
  | .invalidWord _ | .noWord .. => "Invalid opcode state"
  | .stackFull | .stackEmpty => "Invalid stack state"
  | .outOfBounds .. => "Invalid memory access"
  | .fault _ => "Invalid request"

/-- The full wording: the cause within its context. -/
def message (e : StepError) : String :=
  e.context ++ " '" ++ e.text ++ "'."

end StepError

end SpriteVM
