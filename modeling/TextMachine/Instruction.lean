import TextMachine.Op

/-!
# Symbolic code

While a program is being built its jumps go to *labels*. A stream of instructions mixes real
instructions, which become operations, with markers that take no position: label definitions,
comments and padding.
-/

namespace TextMachine

/-- A symbolic jump target. Two labels are the same label exactly when their names agree. -/
structure Label where
  name : String
deriving DecidableEq

namespace Label

/-- The label made from a hint and a counter: the hint followed by the counter in decimal. -/
def numbered (hint : String) (counter : Nat) : Label :=
  ⟨hint ++ toString counter⟩

end Label

/-- One instruction of a stream under construction. -/
inductive Instruction where
  | write (symbol : Symbol) (reg : Reg)
  | case (reg : Reg)
  /-- Define a label at this point. -/
  | setLabel (label : Label)
  /-- Go to wherever the label is defined. -/
  | jump (label : Label)
  /-- An annotation of what follows. -/
  | comment (text : String)
  /-- Padding. -/
  | nop
deriving DecidableEq

namespace Instruction

/-- How many positions an instruction takes in the finished program: one if it is real, none if it
is a marker. -/
def width : Instruction → Nat
  | write _ _ => 1
  | case _ => 1
  | jump _ => 1
  | setLabel _ => 0
  | comment _ => 0
  | nop => 0

/-- The label that an instruction defines, if it defines one. -/
def definedLabel? : Instruction → Option Label
  | setLabel l => some l
  | _ => none

end Instruction

/-- The labels that a stream defines, in stream order. -/
def definedLabels (code : List Instruction) : List Label :=
  code.filterMap Instruction.definedLabel?

end TextMachine
