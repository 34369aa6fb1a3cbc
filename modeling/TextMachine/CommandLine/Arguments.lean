import TextMachine.Listing
import TextMachine.Routine

/-!
# Command-line arguments

The words of a command line are read from left to right. A word that begins with `-`, other than `-`
itself, is an option; `--` ends the options. Help, the version and an option that does not exist are
acted on where they stand. All other complaints (a value missing, an option repeated, operands
missing or wrong) wait for the last word, so that a request for help further on is still heard.
-/

namespace TextMachine.CommandLine

/-- An option that takes a value. -/
inductive Setting where
  | output
  | temps
  /-- Taken for its own sake: it changes nothing that is written. -/
  | logLevel
deriving DecidableEq

/-- An option that takes no value. -/
inductive Flag where
  | compact
  | noComments
deriving DecidableEq

/-- Why a command line asks for no generation. -/
inductive Stop where
  | help
  | version
  /-- The words do not fit the usage. -/
  | misuse
deriving DecidableEq

/-- What a word before `--` is by itself. -/
inductive Word where
  | operand
  | terminator
  | flag (flag : Flag)
  /-- A setting, with the value written in the same word if there is one. -/
  | setting (setting : Setting) (attached : Option String)
deriving DecidableEq

/-! ## Single words -/

/-- The option `--name` or `--name=value`. -/
def readLong (name : String) (attached : Option String) : Except Stop Word :=
  match name, attached with
  | "help", none => .error .help
  | "version", none => .error .version
  | "compact", none => .ok (.flag .compact)
  | "no-comments", none => .ok (.flag .noComments)
  | "output", _ => .ok (.setting .output attached)
  | "temps", _ => .ok (.setting .temps attached)
  | "log-level", _ => .ok (.setting .logLevel attached)
  | _, _ => .error .misuse

/-- The option `-x`, with what follows in the same word. -/
def readShort (letter : Char) (rest : List Char) : Except Stop Word :=
  match letter, rest with
  | 'h', _ => .error .help
  | 'V', _ => .error .version
  | 'o', [] => .ok (.setting .output none)
  | 'o', '=' :: value => .ok (.setting .output (some (String.ofList value)))
  | 'o', value => .ok (.setting .output (some (String.ofList value)))
  | _, _ => .error .misuse

/-- What a word is by itself. -/
def readWord (word : String) : Except Stop Word :=
  match word.toList with
  | ['-', '-'] => .ok .terminator
  | '-' :: '-' :: text =>
    let name := String.ofList (text.takeWhile (· ≠ '='))
    match text.dropWhile (· ≠ '=') with
    | [] => readLong name none
    | _ :: value => readLong name (some (String.ofList value))
  | '-' :: letter :: rest => readShort letter rest
  | _ => .ok .operand

/-- Whether a word can be the value of the setting before it. -/
def isValueWord (word : String) : Bool :=
  match word.toList with
  | '-' :: _ :: _ => false
  | _ => true

/-! ## Whole command lines -/

/-- The words of a command line, sorted by what they are. -/
structure Arguments where
  operands : List String := []
  flags : List Flag := []
  /-- The settings with their values, `none` where the value is missing. -/
  settings : List (Setting × Option String) := []

namespace Arguments

/-- Sort the words of a command line. -/
def ofWords : List String → Except Stop Arguments
  | [] => .ok {}
  | word :: rest => do
    match ← readWord word with
    | .terminator => return { operands := rest }
    | .operand =>
      let args ← ofWords rest
      return { args with operands := word :: args.operands }
    | .flag f =>
      let args ← ofWords rest
      return { args with flags := f :: args.flags }
    | .setting s (some value) =>
      let args ← ofWords rest
      return { args with settings := (s, some value) :: args.settings }
    | .setting s none =>
      match rest with
      | [] => return { settings := [(s, none)] }
      | next :: more =>
        if isValueWord next then
          let args ← ofWords more
          return { args with settings := (s, some next) :: args.settings }
        else
          let args ← ofWords (next :: more)
          return { args with settings := (s, none) :: args.settings }

/-- The value of a setting, if it was given one. -/
def value? (args : Arguments) (s : Setting) : Option String :=
  (args.settings.lookup s).join

end Arguments

/-- A request to generate a routine. Numbers are still the words that spell them. -/
structure Request where
  routine : Routine
  registers : List String
  temps : Option String := none
  compact : Bool := false
  noComments : Bool := false
  /-- The file to write, `-` for the standard output. -/
  output : String := "-"
deriving DecidableEq

/-- How a request wants its program written. -/
def Request.style (r : Request) : Style :=
  { comments := !r.noComments, compact := r.compact }

namespace Arguments

/-- The request that sorted words make: every option at most once and with its value, a known
routine, and at least one register. -/
def request (args : Arguments) : Except Stop Request :=
  match args.operands with
  | name :: reg :: regs =>
    match Routine.ofName? name with
    | some routine =>
      if args.flags.Nodup ∧ (args.settings.map (·.1)).Nodup ∧
          args.settings.all (·.2.isSome) then
        .ok {
          routine
          registers := reg :: regs
          temps := args.value? .temps
          compact := .compact ∈ args.flags
          noComments := .noComments ∈ args.flags
          output := (args.value? .output).getD "-"
        }
      else .error .misuse
    | none => .error .misuse
  | _ => .error .misuse

end Arguments

/-- The request that a command line makes. -/
def Request.ofWords (words : List String) : Except Stop Request := do
  (← Arguments.ofWords words).request

end TextMachine.CommandLine
