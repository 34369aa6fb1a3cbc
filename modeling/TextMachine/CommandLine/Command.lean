import TextMachine.Build.Library
import TextMachine.CommandLine.Arguments
import TextMachine.CommandLine.Failure

/-!
# The command

The command generates one routine on the given registers and writes it as program text. Registers
are read first, from left to right, then the base of the temporaries; then the routine is built, and
only then is the output opened.

All that the command does to the world goes through a `Host`. The program has one that reads and
writes real files; `Environment.host` is one whose effects are a function of what was there before.
-/

namespace TextMachine.CommandLine

/-! ## Texts -/

/-- What `--version` prints. -/
def versionText : String := "onehash 1.0.0\n"

/-- What `--help` prints. -/
def helpText : String := String.join <| List.map (· ++ "\n") [
  "onehash 1.0.0",
  "1# program generator",
  "",
  "USAGE:",
  "    onehash [OPTIONS] <PROGRAM> <REGISTER>...",
  "",
  "ARGS:",
  "    <PROGRAM>        Routine to generate [possible values: move, copy, clear, swap, reverse]",
  "    <REGISTER>...    Operand registers, numbered from 1",
  "",
  "OPTIONS:",
  "        --compact              Write the whole program on a single line",
  "    -h, --help                 Print help information",
  "        --log-level <LEVEL>    Log filter, in RUST_LOG syntax [default: warn]",
  "        --no-comments          Omit comment lines",
  "    -o, --output <FILE>        Output file ('-' for stdout) [default: -]",
  "        --temps <N>            First register used for temporaries",
  "    -V, --version              Print version information"]

/-- What is printed when the words do not fit the usage. -/
def usageText : String := "error: the arguments do not fit the usage, try --help\n"

/-! ## From a request to code -/

/-- Code that is ready to be written. -/
structure Plan where
  code : List Instruction
  style : Style
  /-- The file to write, `-` for the standard output. -/
  output : String

/-- Read a word as a number. -/
def numberOfWord (word : String) : Except Failure Nat :=
  (readNumber word).mapError (.badNumber word)

namespace Request

/-- The first temporary of a request. -/
def base (r : Request) : Except Failure Nat :=
  match r.temps with
  | some word => numberOfWord word
  | none => .ok Builder.defaultBase

/-- Read the numbers of a request and build its routine. -/
def plan (r : Request) : Except Failure Plan := do
  let registers ← r.registers.mapM numberOfWord
  let base ← r.base
  let build : Build Unit Unit := .routine r.routine (registers.map Reg.mk)
  match build.perform (.startingAt base) () with
  | (.error e, _) => throw (.build r.routine e)
  | (.ok (), b, _) => return { code := b.code.toList, style := r.style, output := r.output }

end Request

/-! ## Where the text goes -/

/-- What the command needs of the world that it runs in. -/
structure Host (Handle : Type) (m : Type → Type) where
  /-- The standard output, which is open from the start. -/
  stdout : Handle
  /-- Open a file for writing. The file is created, or emptied if there is one. -/
  create : String → ExceptT OutputError m Handle
  /-- Write a piece of text. -/
  put : Handle → Piece → ExceptT OutputError m Unit
  /-- See to it that all that was written has arrived. -/
  flush : Handle → ExceptT OutputError m Unit
  /-- Write to the error output. -/
  complain : String → m Unit

section

variable {Handle : Type} {m : Type → Type} [Monad m] (host : Host Handle m)

namespace Plan

/-- Assemble the code of a plan into something that is open for writing. -/
def writeTo (p : Plan) (handle : Handle) : ExceptT AssembleError m Unit := do
  assembleBy (host.put handle) p.code p.style
  (host.flush handle).adapt .output

/-- Open the output of a plan and write its code. -/
def deliver (p : Plan) : ExceptT Failure m Unit := do
  if p.output = "-" then
    (p.writeTo host host.stdout).adapt .emitToStdout
  else
    let handle ← (host.create p.output).adapt (.openFile p.output)
    (p.writeTo host handle).adapt (.emitToFile p.output)

end Plan

/-- Generate what a request asks for and write it. -/
def Request.fulfil (r : Request) : ExceptT Failure m Unit := do
  let plan ← liftExcept r.plan
  plan.deliver host

/-- The command with the given words, and its exit status. That help or the version cannot be
printed is no failure. -/
def command (words : List String) : m Nat := do
  match Request.ofWords words with
  | .error .help =>
    let _ ← (host.put host.stdout (.text helpText.toList)).run
    return 0
  | .error .version =>
    let _ ← (host.put host.stdout (.text versionText.toList)).run
    return 0
  | .error .misuse =>
    host.complain usageText
    return 2
  | .ok request =>
    match ← (request.fulfil host).run with
    | .ok () => return 0
    | .error failure =>
      host.complain failure.report
      return 1

end

end TextMachine.CommandLine
