import TextMachine.Lines
import TextMachine.Op

/-!
# Reading program text

The reader drops the lines that begin with `;`, joins the others without a separator, and cuts what
is left into words: each a longest run of `1` followed by a longest run of `#`.
-/

namespace TextMachine

/-- Why a text is no program. -/
inductive ReadError where
  /-- A run of `#` of a length that belongs to no operation, where a missing run has length 0. -/
  | badWord
deriving DecidableEq

/-- The code of a text: its lines that are not comments, joined. -/
def codeOf (text : List Char) : List Char :=
  ((lines text).filter fun line => line.head? != some ';').flatten

/-- The longest run of a character at the beginning of a text, and what follows it. -/
def splitRun (c : Char) (text : List Char) : List Char × List Char :=
  (text.takeWhile (· == c), text.dropWhile (· == c))

theorem length_splitRun (c : Char) (text : List Char) :
    (splitRun c text).1.length + (splitRun c text).2.length = text.length := by
  rw [← List.length_append, splitRun, List.takeWhile_append_dropWhile]

/-- The first word of a text, as its counts of `1` and of `#`. -/
def firstWord (code : List Char) : Nat × Nat :=
  ((splitRun '1' code).1.length, (splitRun '#' (splitRun '1' code).2).1.length)

/-- What follows the first word of a text. -/
def afterWord (code : List Char) : List Char :=
  (splitRun '#' (splitRun '1' code).2).2

theorem length_firstWord (code : List Char) :
    (firstWord code).1 + (firstWord code).2 + (afterWord code).length = code.length := by
  have h₁ := length_splitRun '1' code
  have h₂ := length_splitRun '#' (splitRun '1' code).2
  simp only [firstWord, afterWord]
  omega

/-- Cut code into words, and read each as an operation. Every word that can be read has at least one
`#`, so the code that is left gets shorter. -/
def readWords (code : List Char) : Except ReadError (List Op) :=
  if code.isEmpty then .ok []
  else
    match _h : Op.ofWord? (firstWord code).1 (firstWord code).2 with
    | none => .error .badWord
    | some op => do return op :: (← readWords (afterWord code))
termination_by code.length
decreasing_by
  have hlen := length_firstWord code
  have hword := congrArg Prod.snd (Op.word_eq_of_ofWord? _h)
  have hpos : 0 < (firstWord code).2 := hword ▸ op.opcode_pos
  omega

/-- The operations that a text spells. -/
def readOps (text : List Char) : Except ReadError (List Op) :=
  readWords (codeOf text)

end TextMachine
