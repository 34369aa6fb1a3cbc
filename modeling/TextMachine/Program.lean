import TextMachine.Comments
import TextMachine.Op

/-!
# Resolved programs

A program is a list of operations together with the comments that stand before each of them;
comments at the position past the last operation close the program.
-/

namespace TextMachine

/-- A program with concrete relative jumps. -/
structure Program where
  ops : List Op := []
  comments : Comments := .empty
deriving DecidableEq

namespace Program

/-- The number of operations. -/
def size (p : Program) : Nat :=
  p.ops.length

/-- Whether there is no operation. Comments do not count. -/
def isEmpty (p : Program) : Bool :=
  p.ops.isEmpty

/-- The comments that stand before the operation at `index`. -/
def commentsAt (p : Program) (index : Nat) : List String :=
  p.comments.textsAt index

end Program

end TextMachine
