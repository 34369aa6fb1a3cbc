import TextMachine.Instruction
import TextMachine.Program

/-!
# Label resolution

`resolve` turns a stream of symbolic instructions into a program. Positions are counted in the final
numbering, in which markers take no place: a label stands for the number of real instructions before
its definition, that is for the first real instruction after it or for the end of the program.

A defect of the labels as a whole, a label defined twice, is reported before any defect of a single
instruction; among the latter the first in stream order is reported.
-/

namespace TextMachine

/-- Why a stream of instructions has no program, or a program no stream. -/
inductive ResolveError where
  /-- A jump to a label that is defined nowhere. -/
  | unresolvedLabel (label : Label)
  /-- A label defined more than once. -/
  | duplicateLabel (label : Label)
  /-- A jump of distance zero, which has no encoding. -/
  | selfJump (label : Label)
  /-- Register 0, which does not exist. -/
  | zeroRegister
  /-- A jump at a position of a program that lands outside of it. -/
  | outOfRange (position : Nat)
deriving DecidableEq

namespace ResolveError

/-- The wording of an error. -/
def message : ResolveError → String
  | unresolvedLabel l => "Jump to unbound label `" ++ l.name ++ "`"
  | duplicateLabel l => "Label `" ++ l.name ++ "` is bound more than once"
  | selfJump l => "Jump to `" ++ l.name ++ "` targets its own position"
  | zeroRegister => "Invalid register index 0, registers are numbered from 1"
  | outOfRange i => "Jump at " ++ toString i ++ " lands outside the program"

end ResolveError

/-! ## Where labels stand -/

/-- Each label definition of a stream that starts at position `here`, with its position. -/
def labelPositions (here : Nat) : List Instruction → List (Label × Nat)
  | [] => []
  | .setLabel l :: rest => (l, here) :: labelPositions here rest
  | i :: rest => labelPositions (here + i.width) rest

/-- The first element of a list that also occurs earlier in it. `seen` holds what came before. -/
def firstRepeated? {α : Type} [DecidableEq α] (seen : List α) : List α → Option α
  | [] => none
  | a :: rest => if a ∈ seen then some a else firstRepeated? (a :: seen) rest

/-! ## Single instructions -/

/-- Refuses register 0. -/
def Reg.resolve (r : Reg) : Except ResolveError Reg :=
  if r.index = 0 then .error .zeroRegister else .ok r

/-- The jump from position `here` to position `target`. -/
def Label.resolve (l : Label) (here target : Nat) : Except ResolveError Op :=
  if here < target then .ok (.forward (target - here))
  else if target < here then .ok (.backward (here - target))
  else .error (.selfJump l)

/-- The operation that a real instruction at position `here` becomes, where `positions` says where
the labels stand. Markers become nothing. -/
def Instruction.resolve (positions : List (Label × Nat)) (here : Nat) :
    Instruction → Except ResolveError (Option Op)
  | write s r => return some (.write s (← r.resolve))
  | case r => return some (.case (← r.resolve))
  | jump l =>
    match positions.lookup l with
    | none => .error (.unresolvedLabel l)
    | some target => return some (← l.resolve here target)
  | setLabel _ => .ok none
  | comment _ => .ok none
  | nop => .ok none

/-! ## Whole streams -/

/-- The operations of a stream that starts at position `here`. -/
def resolveOps (positions : List (Label × Nat)) (here : Nat) :
    List Instruction → Except ResolveError (List Op)
  | [] => .ok []
  | i :: rest => do
    let op? ← i.resolve positions here
    let ops ← resolveOps positions (here + i.width) rest
    return op?.toList ++ ops

/-- The comments of a stream that starts at position `here`. -/
def resolveComments (here : Nat) : List Instruction → Comments
  | [] => .empty
  | .comment text :: rest => (resolveComments here rest).prepend here text
  | i :: rest => resolveComments (here + i.width) rest

/-- The program of a stream of instructions. -/
def resolve (code : List Instruction) : Except ResolveError Program := do
  if let some l := firstRepeated? [] (definedLabels code) then
    throw (.duplicateLabel l)
  let ops ← resolveOps (labelPositions 0 code) 0 code
  return { ops, comments := resolveComments 0 code }

end TextMachine
