import TextMachine.Lines
import TextMachine.Program

/-!
# Program text

A program is written with one operation per line, each line of a comment on a line of its own before
the operation it annotates, or *compactly*: all words on a single line, without comments.

Comment lines begin with `;`, and the two symbols of the machine are replaced in them by
look-alikes. A reader that skips every character foreign to the alphabet therefore never takes a
comment for code.
-/

namespace TextMachine

/-- How a program is written. -/
structure Style where
  /-- Write the comments. -/
  comments : Bool := true
  /-- Write all words on a single line; this leaves out the comments too. -/
  compact : Bool := false
deriving DecidableEq

/-! ## Pieces -/

/-- A piece of text as it is written. A run of one character is kept as a count, since an operand
can be far larger than what an output takes. -/
inductive Piece where
  | text (characters : List Char)
  | run (character : Char) (count : Nat)
deriving DecidableEq

namespace Piece

/-- The characters of a piece. -/
def characters : Piece → List Char
  | text cs => cs
  | run c n => List.replicate n c

/-- The first `n` characters of a piece. -/
def take (n : Nat) : Piece → List Char
  | text cs => cs.take n
  | run c m => List.replicate (min n m) c

theorem take_eq_take_characters (n : Nat) (p : Piece) : p.take n = p.characters.take n := by
  cases p with
  | text cs => rfl
  | run c m => rw [take, characters, List.take_replicate]

end Piece

/-! ## Comment lines -/

/-- The character written for a character of a comment. -/
def commentChar (c : Char) : Char :=
  if c = '1' then '¹' else if c = '#' then '♯' else c

/-- One line of a comment as it is written, with its line end. -/
def commentLine (line : List Char) : List Char :=
  if line.isEmpty then [';', '\n'] else [';', ' '] ++ line.map commentChar ++ ['\n']

/-- A comment as it is written: each of its lines on a line of its own. -/
def commentPieces (text : String) : List Piece :=
  (lines text.toList).map fun line => .text (commentLine line)

/-! ## Whole programs -/

/-- The word of an operation: its two runs. -/
def Op.pieces (op : Op) : List Piece :=
  [.run '1' op.operand, .run '#' op.opcode]

/-- The end of a line. -/
def lineEnd : Piece := .text ['\n']

namespace Program

/-- The comments before the operation at `index`. -/
def commentPiecesAt (p : Program) (index : Nat) : List Piece :=
  (p.commentsAt index).flatMap commentPieces

/-- What is written for the operations from position `here` on, with comments if these are wanted.
-/
def piecesFrom (p : Program) (comments : Bool) (here : Nat) : List Op → List Piece
  | [] => if comments then p.commentPiecesAt here else []
  | op :: rest =>
    (if comments then p.commentPiecesAt here else []) ++ op.pieces ++
      lineEnd :: p.piecesFrom comments (here + 1) rest

/-- The pieces in which a program is written, in order. -/
def pieces (p : Program) (style : Style) : List Piece :=
  if style.compact then p.ops.flatMap Op.pieces ++ [lineEnd]
  else p.piecesFrom style.comments 0 p.ops

/-- The characters of a program's text. -/
def characters (p : Program) (style : Style) : List Char :=
  (p.pieces style).flatMap Piece.characters

/-- The text of a program. -/
def text (p : Program) (style : Style) : String :=
  String.ofList (p.characters style)

end Program

/-- Whether a line is executable code: not empty, and made of the machine's symbols only. -/
def isCode (line : List Char) : Bool :=
  !line.isEmpty && line.all fun c => c = '1' || c = '#'

end TextMachine
