/-!
# Machine operations

The 1# machine has text registers numbered from 1. Each holds a queue of symbols: writing appends at
the end, dispatching consumes at the front. A program is a list of the operations below, and every
jump is relative to the position of the jump itself.

Every operation is written as a *word*: a run of `1` that spells its operand in unary, then a run of
one to five `#` that says which operation it is. `Op.ofWord?` is the inverse of `Op.word`.
-/

namespace TextMachine

/-! ## Symbols and registers -/

/-- The alphabet of the machine. -/
inductive Symbol where
  | one
  | hash
deriving DecidableEq

namespace Symbol

/-- The character that stands for a symbol. -/
def toChar : Symbol → Char
  | one => '1'
  | hash => '#'

/-- How dispatching classifies a character: whatever is not `1` counts as `#`. -/
def ofChar (c : Char) : Symbol :=
  if c = '1' then one else hash

@[simp] theorem ofChar_toChar (s : Symbol) : ofChar s.toChar = s := by
  cases s <;> decide

end Symbol

/-- A register of the machine. Registers are numbered from 1; number 0 can be written down, and is
refused wherever a register is checked. -/
structure Reg where
  index : Nat
deriving DecidableEq

namespace Reg

/-- The written name of a register, `r5`. -/
def name (r : Reg) : String :=
  "r" ++ toString r.index

end Reg

/-! ## Operations and their words -/

/-- An operation of the machine. -/
inductive Op where
  /-- Append a symbol to a register. -/
  | write (symbol : Symbol) (reg : Reg)
  /-- Move the program counter ahead. -/
  | forward (distance : Nat)
  /-- Move the program counter back. -/
  | backward (distance : Nat)
  /-- Consume the first symbol of a register and move 1, 2 or 3 positions ahead, as the register
  was empty, began with `1`, or began with something else. -/
  | case (reg : Reg)
deriving DecidableEq

namespace Op

/-- The operand of an operation: the number of its register, or its distance. -/
def operand : Op → Nat
  | write _ r => r.index
  | forward d => d
  | backward d => d
  | case r => r.index

/-- The number of `#` that ends the word of an operation. -/
def opcode : Op → Nat
  | write .one _ => 1
  | write .hash _ => 2
  | forward _ => 3
  | backward _ => 4
  | case _ => 5

/-- How many `1` and how many `#` spell an operation. -/
def word (op : Op) : Nat × Nat :=
  (op.operand, op.opcode)

/-- The operation spelled by `ones` times `1` and `hashes` times `#`, if there is one. -/
def ofWord? (ones : Nat) : (hashes : Nat) → Option Op
  | 1 => some (write .one ⟨ones⟩)
  | 2 => some (write .hash ⟨ones⟩)
  | 3 => some (forward ones)
  | 4 => some (backward ones)
  | 5 => some (case ⟨ones⟩)
  | _ => none

/-- The number of characters of an operation's word. -/
def encodedLength (op : Op) : Nat :=
  op.operand + op.opcode

/-- The word of an operation, spelled out. -/
def spelling (op : Op) : List Char :=
  List.replicate op.operand '1' ++ List.replicate op.opcode '#'

theorem opcode_pos (op : Op) : 0 < op.opcode := by
  fun_cases opcode <;> decide

theorem opcode_le (op : Op) : op.opcode ≤ 5 := by
  fun_cases opcode <;> decide

@[simp] theorem length_spelling (op : Op) : op.spelling.length = op.encodedLength := by
  simp [spelling, encodedLength]

/-- Words determine their operations. -/
theorem ofWord?_word (op : Op) : ofWord? op.operand op.opcode = some op := by
  fun_cases opcode <;> rfl

/-- A pair of counts that spells an operation is the word of that operation. -/
theorem word_eq_of_ofWord? {ones hashes : Nat} {op : Op} (h : ofWord? ones hashes = some op) :
    op.word = (ones, hashes) := by
  unfold ofWord? at h
  split at h <;> cases h <;> rfl

end Op

end TextMachine
