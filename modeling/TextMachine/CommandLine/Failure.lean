import TextMachine.Build.Basic
import TextMachine.CommandLine.Number
import TextMachine.Output

/-!
# Failures of the command

What the command reports when it could not do what it was asked for: a sentence that says what
failed, then the chain of its causes, outermost first.
-/

namespace TextMachine.CommandLine

/-- Why the command failed. -/
inductive Failure where
  | badNumber (word : String) (cause : NumberError)
  | build (routine : Routine) (cause : BuildError)
  | openFile (path : String) (cause : OutputError)
  | emitToFile (path : String) (cause : AssembleError)
  | emitToStdout (cause : AssembleError)
deriving DecidableEq

/-- A numbered list of causes; a single cause takes no number. -/
def causeLines : List String → List String
  | [cause] => ["    " ++ cause]
  | causes => causes.mapIdx fun i cause => "    " ++ toString i ++ ": " ++ cause

/-- The text that reports a failure and its causes. -/
def failureText (context : String) (causes : List String) : String :=
  String.join ((["Error: " ++ context, "", "Caused by:"] ++ causeLines causes).map (· ++ "\n"))

theorem failureText_single (context cause : String) :
    failureText context [cause] =
      "Error: " ++ context ++ "\n\nCaused by:\n    " ++ cause ++ "\n" := by
  apply String.toList_inj.1
  simp [failureText, causeLines]

theorem failureText_pair (context first second : String) :
    failureText context [first, second] =
      "Error: " ++ context ++ "\n\nCaused by:\n    0: " ++ first ++ "\n    1: " ++ second ++
        "\n" := by
  have hone : Nat.toDigits 10 1 = ['1'] := rfl
  apply String.toList_inj.1
  simp [failureText, causeLines, hone]

namespace Failure

/-- The sentence that says what failed. -/
def context : Failure → String
  | badNumber word _ => "Bad register number: " ++ word
  | build routine _ => "Failed to generate `" ++ routine.name ++ "`"
  | openFile path _ => "Failed to open for writing: " ++ path
  | emitToFile path _ => "Failed to emit to file: " ++ path
  | emitToStdout _ => "Failed to emit to stdout"

/-- The causes of a failure, outermost first. -/
def causes : Failure → List String
  | badNumber _ cause => [cause.message]
  | build _ cause => [cause.message]
  | openFile _ cause => [cause.message]
  | emitToFile _ cause => cause.chain
  | emitToStdout cause => cause.chain

/-- The text that reports a failure. -/
def report (f : Failure) : String :=
  failureText f.context f.causes

end Failure

end TextMachine.CommandLine
