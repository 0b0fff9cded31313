import SpriteVM.Console.Response
import SpriteVM.Text.Lines

/-!
# Sessions

A session is a dialogue: a prompt, a line, the answer to it, and so on until a line asks to quit, a
line is not text, or the input ends. A line of blanks asks for the latest command again. Mistakes are
answered and change nothing.
-/

namespace SpriteVM

/-- Where a dialogue stands. -/
structure Session where
  /-- the machine under inspection -/
  machine : Machine
  /-- the latest command that was understood -/
  latest? : Option Command := none

/-- An entry of the log of a session. -/
inductive SessionEntry where
  /-- a command is about to be carried out -/
  | command (c : Command)
  /-- the machine has something to tell -/
  | machine (m : Message)
  deriving DecidableEq, Repr

/-- An entry as a line of the log, led by its level. -/
def SessionEntry.text : SessionEntry → String
  | .command c => Level.debug.name ++ " executing " ++ c.logText
  | .machine m => m.entry

/-- What a line asks for. -/
inductive Request where
  /-- to carry out a command -/
  | command (c : Command)
  /-- nothing: the line is blank and there is no command to repeat -/
  | nothing
  /-- nothing that can be understood -/
  | mistake (e : CommandError)
  deriving DecidableEq, Repr

/-- How a dialogue ends. -/
inductive Ending where
  /-- a line asked for it -/
  | quit
  /-- there are no more lines -/
  | endOfInput
  /-- a line is not text -/
  | notText
  deriving DecidableEq, Repr

/-- What is printed behind the last prompt. -/
def Ending.text : Ending → String
  | .endOfInput => "\n"
  | .quit | .notText => ""

/-- The complaint about a dialogue that ended in failure. -/
def Ending.error? : Ending → Option String
  | .notText => some "stream did not contain valid UTF-8"
  | .quit | .endOfInput => none

/-- The answer to a line. -/
structure SessionAnswer where
  /-- where the dialogue stands after it -/
  session : Session
  /-- what is printed -/
  text : String := ""
  /-- what is logged, in order -/
  log : List SessionEntry := []
  /-- whether the dialogue is over -/
  quits : Bool := false

/-- A whole dialogue. -/
structure Transcript where
  /-- the machine at the end -/
  machine : Machine
  /-- what was printed for each line, without the prompts -/
  answers : List String := []
  /-- how the dialogue ended -/
  ending : Ending
  /-- what was logged, in order -/
  log : List SessionEntry := []

namespace Session

/-- What is printed when a line is awaited. -/
def prompt : String := "(debugger) "

/-- What a line asks for. -/
def request (s : Session) (line : String) : Request :=
  if Blank.allBlank line.toList then
    match s.latest? with
    | some c => .command c
    | none => .nothing
  else
    match Command.parse line with
    | .ok c => .command c
    | .error e => .mistake e

/-- Carries out a command, which is then the latest one. -/
def carryOut (s : Session) (c : Command) : SessionAnswer :=
  let response := c.respond s.machine
  { session := { machine := response.machine, latest? := some c }
    text := String.join (response.lines.map Layout.line)
    log := .command c :: response.log.map .machine
    quits := c == .quit }

/-- The answer to a line. -/
def answer (s : Session) (line : String) : SessionAnswer :=
  match s.request line with
  | .command c => s.carryOut c
  | .nothing => { session := s }
  | .mistake e => { session := s, text := Layout.line e.message }

/-- The dialogue over lines of input, where `none` is a line that is not text. -/
def run (s : Session) : List (Option String) → Transcript
  | [] => { machine := s.machine, ending := .endOfInput }
  | none :: _ => { machine := s.machine, ending := .notText }
  | some line :: lines =>
    let a := s.answer line
    if a.quits then { machine := a.session.machine, ending := .quit, log := a.log }
    else
      let rest := a.session.run lines
      { rest with answers := a.text :: rest.answers, log := a.log ++ rest.log }

end Session

/-- All that a dialogue prints. -/
def Transcript.text (t : Transcript) : String :=
  String.join (t.answers.map (Session.prompt ++ ·)) ++ Session.prompt ++ t.ending.text

/-- The dialogue with a machine over a stream of bytes. -/
def Machine.converse (m : Machine) (input : List UInt8) : Transcript :=
  Session.run { machine := m } (Lines.ofBytes input)

end SpriteVM
