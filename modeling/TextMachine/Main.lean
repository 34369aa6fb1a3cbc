import TextMachine.CommandLine.Command

/-!
# The program

The command on the real standard output and file system. All that happens here is opening, writing
and flushing, one call at a time; what is done when, and what comes of a failure, is `command`.
-/

namespace TextMachine.CommandLine

/-- The wording of an error that the system reports by a number. -/
def numberedCause (code : UInt32) (details : String) : String :=
  details ++ " (os error " ++ toString code ++ ")"

/-- The wording of a system error. -/
def systemCause : IO.Error → String
  | .noFileOrDirectory _ code details => numberedCause code details
  | .inappropriateType _ code details => numberedCause code details
  | .invalidArgument _ code details => numberedCause code details
  | .permissionDenied _ code details => numberedCause code details
  | .resourceExhausted _ code details => numberedCause code details
  | .noSuchThing _ code details => numberedCause code details
  | .otherError code details => numberedCause code details
  | e => toString e

/-- An action whose failure is that of an output. -/
def attempt {α : Type} (action : IO α) : ExceptT OutputError IO α := do
  match ← action.toBaseIO with
  | .ok a => return a
  | .error e => throw (.other (systemCause e))

/-- The number of characters of a run that are written at once. -/
def chunkSize : Nat := 4096

/-- Write a piece to an open output, a long run in chunks. -/
def writePiece (stream : IO.FS.Stream) : Piece → IO Unit
  | .text cs => stream.putStr (String.ofList cs)
  | .run c count => do
    let chunk := String.ofList (List.replicate chunkSize c)
    for _ in [0:count / chunkSize] do
      stream.putStr chunk
    stream.putStr (String.ofList (List.replicate (count % chunkSize) c))

/-- The real standard output and files. -/
def realHost (stdout : IO.FS.Stream) : Host IO.FS.Stream IO where
  stdout := stdout
  create path := attempt do
    return .ofHandle (← IO.FS.Handle.mk path .write)
  put stream piece := attempt (writePiece stream piece)
  flush stream := attempt stream.flush
  complain text := IO.eprint text

end TextMachine.CommandLine

open TextMachine.CommandLine in
/-- Run the command with the given words. -/
def main (words : List String) : IO UInt32 := do
  let status ← command (realHost (← IO.getStdout)) words
  return status.toUInt32
