import SpriteVM.Console.Invocation

/-!
# The program

The command line of the debugger: what `Invocation.run` says, with the real files, arguments and
streams. Lines are answered as they come in. Random bytes come from the generator of the standard
library.
-/

namespace SpriteVM.Program

/-- Reads up to the next line feed and with it; nothing at the end of the input. -/
partial def readLine (input : IO.FS.Stream) (line : List UInt8) : IO (List UInt8) := do
  let bytes ← input.read 1
  match bytes.toList with
  | [] => return line.reverse
  | byte :: _ =>
    if byte = Lines.lineFeed then return (byte :: line).reverse
    else readLine input (byte :: line)

/-- Holds a session; the complaint is about what ended it, if it ended badly. -/
partial def dialogue (input output : IO.FS.Stream) (s : Session) : IO (Option String) := do
  output.putStr Session.prompt
  output.flush
  let line ← readLine input []
  if line.isEmpty then
    output.putStr Ending.endOfInput.text
    return Ending.endOfInput.error?
  match Lines.text? line with
  | none => return Ending.notText.error?
  | some text =>
    let a := s.answer text
    output.putStr a.text
    if a.quits then return Ending.quit.error? else dialogue input output a.session

/-- Whether a system error has a number; some calls report it negated. -/
def hasNumber (code number : UInt32) : Bool :=
  code == number || code == 0 - number

/-- Why a file could not be read. -/
def readCause (e : IO.Error) : String :=
  match e with
  | .noFileOrDirectory .. => ReadError.notFound.message
  | .inappropriateType _ code _ =>
    if hasNumber code 21 then ReadError.isDirectory.message
    else if hasNumber code 20 then ReadError.notDirectory.message
    else toString e
  | _ => toString e

/-- The contents of a file, or why they could not be read. -/
def readFile (path : String) : IO (Except String (List UInt8)) := do
  try
    let bytes ← IO.FS.readBinFile path
    return .ok bytes.toList
  catch e => return .error (readCause e)

/-- The generator behind a number of splits, one for each binary digit of the number. -/
def generatorAt (g : StdGen) (k : Nat) : StdGen :=
  if k = 0 then g
  else
    let (left, right) := stdSplit (generatorAt g (k / 2))
    if k % 2 = 0 then left else right

/-- The random source of a seed. -/
def seeded (seed : Nat) : ByteSource where
  stream k := UInt8.ofNat (randNat (generatorAt (mkStdGen seed) k) 0 255).1

/-- The random source of a seed, or of a seed that the system chooses. -/
def randomSource (seed? : Option Nat) : IO ByteSource := do
  match seed? with
  | some seed => return seeded seed
  | none =>
    let bytes ← IO.getRandomBytes 8
    return seeded (bytes.toList.foldl (fun seed byte => seed * 256 + byte.toNat) 0)

/-- Holds a session with the ROM at a path. -/
def session (path : String) (seed? : Option Nat) : IO (Option String) := do
  match ← readFile path with
  | .error cause => return some (Invocation.readComplaint path cause)
  | .ok contents =>
    match Invocation.bootFile path contents (← randomSource seed?) with
    | .error e => return some e.message
    | .ok machine => dialogue (← IO.getStdin) (← IO.getStdout) { machine }

/-- The rules of the command line. -/
def usage : String :=
  "Usage: chip8-debugger [--seed SEED] ROM"

/-- What the program tells about itself and its arguments. -/
def helpLines : List String := [
  "Headless CHIP-8 debugger",
  "",
  usage,
  "",
  "  ROM            Filepath to the Chip-8 ROM file that will be debugged",
  "  --seed SEED    PRNG seed, for reproducible sessions",
  "  -h, --help     Print help",
  "  -V, --version  Print version"]

/-- Does what the arguments ask for and gives the exit code. -/
def start (args : List String) : IO UInt32 := do
  match Invocation.parse args with
  | .usageError =>
    IO.eprintln usage
    return 2
  | .help =>
    helpLines.forM IO.println
    return 0
  | .version =>
    IO.print Invocation.versionLine
    return 0
  | .session path seed? =>
    match ← session path seed? with
    | none => return 0
    | some complaint =>
      IO.eprint (Exit.complaintText complaint)
      return 1

end SpriteVM.Program

/-- Runs the program. -/
def main (args : List String) : IO UInt32 :=
  SpriteVM.Program.start args
