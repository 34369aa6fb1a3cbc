import TextMachine.Build.Control
import TextMachine.Routine

/-!
# Building scripts

A script is a list of building steps as data. Steps refer to what earlier steps produced through
named slots: registers, labels and the scopes of blocks each have their own. A later assignment to a
slot replaces an earlier one, and a slot outlives the block in which it was assigned.
-/

namespace TextMachine

/-- A register operand of a step: a number, or the slot of a register. -/
inductive RegRef where
  | number (index : Nat)
  | slot (name : String)
deriving DecidableEq

/-- A step of a script. Bodies are scripts of their own. -/
inductive Step where
  /-- Make a new label, and keep it in a slot if one is named. -/
  | fresh (hint : String) (slot : Option String)
  | define (label : String)
  | jump (label : String)
  /-- Append an instruction, unchecked. -/
  | emit (instruction : Instruction)
  | write (symbol : Symbol) (reg : RegRef)
  | case (reg : RegRef)
  | check (reg : RegRef)
  | comment (text : String)
  | nop
  /-- Ask for the length of the stream. -/
  | size
  /-- Ask whether the stream is empty. -/
  | isEmpty
  | alloc (slot : String)
  | free (reg : RegRef)
  | block (slot : Option String) (body : List Step)
  | restart (scope : String)
  | exit (scope : String)
  | cases (reg : RegRef) (empty one hash : List Step)
  | loopOn (reg : RegRef) (slot : Option String) (one hash : List Step)
  | repeatOn (reg : RegRef) (one hash : List Step)
  | whileNonempty (reg : RegRef) (body : List Step)
  | withTemp (slot : String) (body : List Step)
  /-- Call a routine of the library. -/
  | call (call : Call RegRef)
  /-- Build a routine under a comment, from any number of operands. -/
  | routine (routine : Routine) (operands : List RegRef)
  /-- Go on after the body even if it fails. -/
  | attempt (body : List Step)

/-- A list of steps. -/
abbrev Script := List Step

/-- What a step has to tell besides the instructions that it appends. -/
inductive Value where
  /-- A label that was made. -/
  | label (label : Label)
  /-- A register that passed the check. -/
  | checked (reg : Reg)
  /-- A temporary that was taken. -/
  | temporary (reg : Reg)
  | size (length : Nat)
  | isEmpty (answer : Bool)
  /-- How an attempt ended. -/
  | outcome (result : Except BuildError Unit)

/-! ## Slots -/

/-- What a script keeps between its steps: the slots, latest assignment first, and the values told
during the current step. -/
structure Notes where
  regs : List (String × Reg) := []
  labels : List (String × Label) := []
  scopes : List (String × Scope) := []
  values : Array Value := #[]

namespace Notes

/-- The register that an operand stands for. A slot without an assignment stands for register 0,
which no check lets pass. -/
def reg (n : Notes) : RegRef → Reg
  | .number i => ⟨i⟩
  | .slot name => (n.regs.lookup name).getD ⟨0⟩

/-- The label in a slot. A slot without an assignment holds the label with an empty name, which no
builder makes. -/
def label (n : Notes) (slot : String) : Label :=
  (n.labels.lookup slot).getD ⟨""⟩

/-- The scope in a slot. -/
def scope (n : Notes) (slot : String) : Scope :=
  (n.scopes.lookup slot).getD ⟨⟨""⟩, ⟨""⟩⟩

def setReg (n : Notes) (slot : String) (r : Reg) : Notes :=
  { n with regs := (slot, r) :: n.regs }

def setLabel (n : Notes) (slot : String) (l : Label) : Notes :=
  { n with labels := (slot, l) :: n.labels }

/-- Keep a scope in a slot, and its two labels in label slots of their own. -/
def setScope (n : Notes) (slot : String) (s : Scope) : Notes :=
  let n := (n.setLabel (slot ++ ".start") s.start).setLabel (slot ++ ".end") s.finish
  { n with scopes := (slot, s) :: n.scopes }

def tell (n : Notes) (v : Value) : Notes :=
  { n with values := n.values.push v }

end Notes

end TextMachine
