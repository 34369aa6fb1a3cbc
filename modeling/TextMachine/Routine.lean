import TextMachine.Op

/-!
# Routines and their calls

The routines that can be generated, by name, and their calls: a routine together with as many
operands as it takes.
-/

namespace TextMachine

/-- A routine of the library. -/
inductive Routine where
  | move
  | copy
  | clear
  | swap
  | reverse
deriving DecidableEq

/-- A routine with its operands, which are registers or stand for registers. -/
inductive Call (ρ : Type) where
  /-- Append `source` to `target` and empty `source`. -/
  | move (source target : ρ)
  /-- Append `source` to `target`. -/
  | copy (source target : ρ)
  /-- Empty a register. -/
  | clear (reg : ρ)
  /-- Exchange two registers. -/
  | swap (left right : ρ)
  /-- Put the reverse of `source` in front of `target` and empty `source`. -/
  | reverse (source target : ρ)
deriving DecidableEq

namespace Routine

/-- All routines, in the order in which they are listed. -/
def all : List Routine :=
  [move, copy, clear, swap, reverse]

/-- The name by which a routine is selected. -/
def name : Routine → String
  | move => "move"
  | copy => "copy"
  | clear => "clear"
  | swap => "swap"
  | reverse => "reverse"

/-- The routine of a name. Case matters. -/
def ofName? (name : String) : Option Routine :=
  all.find? fun r => r.name = name

/-- The number of registers that a routine takes. -/
def arity : Routine → Nat
  | clear => 1
  | _ => 2

/-- The call of a routine on the given operands; `none` unless their number is right. -/
def call? {ρ : Type} : Routine → List ρ → Option (Call ρ)
  | move, [a, b] => some (.move a b)
  | copy, [a, b] => some (.copy a b)
  | clear, [a] => some (.clear a)
  | swap, [a, b] => some (.swap a b)
  | reverse, [a, b] => some (.reverse a b)
  | _, _ => none

theorem name_of_ofName?_eq_some {name : String} {r : Routine} (h : ofName? name = some r) :
    r.name = name := by
  unfold ofName? at h
  simpa using List.find?_some h

end Routine

namespace Call

variable {ρ σ : Type}

/-- Which routine is called. -/
def routine : Call ρ → Routine
  | move _ _ => .move
  | copy _ _ => .copy
  | clear _ => .clear
  | swap _ _ => .swap
  | reverse _ _ => .reverse

/-- The operands of a call. -/
def operands : Call ρ → List ρ
  | move a b => [a, b]
  | copy a b => [a, b]
  | clear a => [a]
  | swap a b => [a, b]
  | reverse a b => [a, b]

/-- The call of the same routine on the images of the operands. -/
def map (f : ρ → σ) : Call ρ → Call σ
  | move a b => move (f a) (f b)
  | copy a b => copy (f a) (f b)
  | clear a => clear (f a)
  | swap a b => swap (f a) (f b)
  | reverse a b => reverse (f a) (f b)

/-- A call as it is written in a comment, `move(r1, r2)`. -/
def header (c : Call Reg) : String :=
  c.routine.name ++ "(" ++ ", ".intercalate (c.operands.map Reg.name) ++ ")"

theorem call?_operands (c : Call ρ) : c.routine.call? c.operands = some c := by
  cases c <;> rfl

end Call

end TextMachine
