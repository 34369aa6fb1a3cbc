import TextMachine.Resolution

/-!
# From programs back to symbolic code

`Program.lift` gives every jump target of a program a label named after its position, so that
resolving the result yields the program again. A jump can be expressed in this way only if it lands
somewhere else inside the program, or on its end.
-/

namespace TextMachine

/-- The label for position `index` of a program. -/
def Label.atPosition (index : Nat) : Label :=
  .numbered "@" index

namespace Op

/-- Where an operation at position `here` jumps to, if it is a jump. -/
def target? (here : Nat) : Op → Option Int
  | forward d => some (here + d)
  | backward d => some (here - d)
  | write _ _ => none
  | case _ => none

/-- The symbolic form of an operation at position `here`. A jump goes to the label of its target. -/
def lift (here : Nat) : Op → Instruction
  | write s r => .write s r
  | case r => .case r
  | forward d => .jump (.atPosition (here + d))
  | backward d => .jump (.atPosition (here - d))

end Op

namespace Program

/-- Whether a jump from `here` to `target` can be expressed by a label in a program of the given
size. -/
def checkTarget (size here : Nat) (target : Int) : Except ResolveError Nat :=
  if target = here then .error (.selfJump (.atPosition here))
  else if 0 ≤ target ∧ target ≤ size then .ok target.toNat
  else .error (.outOfRange here)

/-- The targets of all jumps among the operations from position `here` on. -/
def jumpTargets (size here : Nat) : List Op → Except ResolveError (List Nat)
  | [] => .ok []
  | op :: rest =>
    match op.target? here with
    | none => jumpTargets size (here + 1) rest
    | some target => do
      let target ← checkTarget size here target
      return target :: (← jumpTargets size (here + 1) rest)

/-- What stands before the operation at `index`: its comments, then its label if it is a target. -/
def liftMarkers (p : Program) (targets : List Nat) (index : Nat) : List Instruction :=
  (p.commentsAt index).map .comment ++
    if index ∈ targets then [.setLabel (.atPosition index)] else []

/-- The symbolic form of the operations from position `here` on, with their markers. -/
def liftFrom (p : Program) (targets : List Nat) (here : Nat) : List Op → List Instruction
  | [] => p.liftMarkers targets here
  | op :: rest => p.liftMarkers targets here ++ op.lift here :: p.liftFrom targets (here + 1) rest

/-- A stream of instructions that resolves to the program. -/
def lift (p : Program) : Except ResolveError (List Instruction) := do
  let targets ← jumpTargets p.size 0 p.ops
  return p.liftFrom targets 0 p.ops

end Program

end TextMachine
