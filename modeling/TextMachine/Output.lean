import TextMachine.Listing
import TextMachine.Resolution

/-!
# Writing to an output

An output keeps what it is given, or keeps only so many bytes, or takes everything and keeps
nothing, or takes no byte at all. A write that would pass a limit stores the part that fits and
fails; whatever was stored before a failure stays. Text is stored in UTF-8, so a limit can fall
inside a character.
-/

namespace TextMachine

/-- Why an output could not be opened or did not take what it was given. -/
inductive OutputError where
  /-- The output has no room for all that it was given. -/
  | full
  /-- Anything else, in the words of the system that the output belongs to. -/
  | other (wording : String)
deriving DecidableEq

/-- The wording of an error. -/
def OutputError.message : OutputError → String
  | .full => "No space left on device (os error 28)"
  | .other wording => wording

/-- What an output does with the bytes that it is given. -/
inductive Medium where
  /-- Keeps all of them. -/
  | keeping
  /-- Keeps as many as the limit says, over all writes, and refuses more. -/
  | bounded (limit : Nat)
  /-- Takes all of them and keeps none. -/
  | discarding
  /-- Takes none of them. -/
  | refusing (why : OutputError)
deriving DecidableEq

/-- A place that text is written to. -/
structure Output where
  medium : Medium := .keeping
  /-- What has been stored. -/
  bytes : Array UInt8 := #[]

/-- The bytes of a text. -/
def utf8 (text : List Char) : Array UInt8 :=
  (text.flatMap String.utf8EncodeChar).toArray

namespace Output

/-- What an output stores of a piece, and why it refuses the rest, if it does. A character has at
least one byte, so that of a piece one character more than there is room for settles both. -/
def accept (o : Output) (piece : Piece) : Array UInt8 × Option OutputError :=
  match o.medium with
  | .keeping => (utf8 piece.characters, none)
  | .discarding => (#[], none)
  | .refusing why => (#[], if (piece.take 1).isEmpty then none else some why)
  | .bounded limit =>
    let room := limit - o.bytes.size
    let bytes := utf8 (piece.take (room + 1))
    (bytes.take room, if room < bytes.size then some .full else none)

/-- The characters that are wholly stored. A text cut inside a character lacks at most three bytes
of that character's four. -/
def text (o : Output) : String :=
  ([0, 1, 2, 3].findSome? fun cut => String.fromUTF8? ⟨o.bytes.take (o.bytes.size - cut)⟩).getD ""

end Output

/-- Computations that write to an output. What was written before a failure stays. -/
abbrev Emit (ε : Type) := ExceptT ε (StateM Output)

/-- Write a piece of text. -/
def Output.put (piece : Piece) : Emit OutputError Unit := do
  let output ← get
  let (stored, refusal) := output.accept piece
  set { output with bytes := output.bytes ++ stored }
  match refusal with
  | some e => throw e
  | none => return

/-- Write a program piece by piece. -/
def Program.emit (p : Program) (style : Style) : Emit OutputError Unit :=
  (p.pieces style).forM Output.put

/-- Why a stream of instructions was not written. -/
inductive AssembleError where
  | resolve (cause : ResolveError)
  | output (cause : OutputError)
deriving DecidableEq

namespace AssembleError

/-- The wording of an error, without its cause. -/
def message : AssembleError → String
  | resolve _ => "Label resolution failed"
  | output _ => "I/O error"

/-- The wording of an error and of its cause. -/
def chain (e : AssembleError) : List String :=
  [e.message, match e with
    | resolve cause => cause.message
    | output cause => cause.message]

end AssembleError

/-- Resolve a stream of instructions and write the program, each piece with `put`. Nothing is
written if resolving fails. -/
def assembleBy {m : Type → Type} [Monad m] (put : Piece → ExceptT OutputError m Unit)
    (code : List Instruction) (style : Style) : ExceptT AssembleError m Unit := do
  match resolve code with
  | .error e => throw (.resolve e)
  | .ok p => ((p.pieces style).forM put).adapt .output

/-- Resolve a stream of instructions and write the program to an output. -/
def assemble (code : List Instruction) (style : Style) : Emit AssembleError Unit :=
  assembleBy Output.put code style

end TextMachine
