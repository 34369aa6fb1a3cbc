import TextMachine.Build.Library
import TextMachine.Script.Basic

/-!
# Running scripts

A script runs on one builder. Inside a body a failure ends the body and passes on to the enclosing
steps; at the top level it is reported, and the script goes on with its next step. Either way what a
failed step had already done to the builder stays.
-/

namespace TextMachine

/-- Building steps that keep notes. -/
abbrev Scripted := Build Notes

namespace Scripted

/-- The current notes. -/
def notes : Scripted Notes :=
  getThe Notes

/-- Change the notes. -/
def note (f : Notes → Notes) : Scripted Unit :=
  modifyThe Notes f

/-- Tell a value. -/
def tell (v : Value) : Scripted Unit :=
  note (·.tell v)

/-- Keep a scope in a slot, if one is named. -/
def keepScope (slot : Option String) (scope : Scope) : Scripted Unit :=
  slot.forM fun name => note (·.setScope name scope)

/-- The register that an operand stands for at this moment. -/
def reg (r : RegRef) : Scripted Reg :=
  return (← notes).reg r

end Scripted

open Scripted in
mutual

/-- Perform one step. The operands of a step are read before it does anything. -/
def Step.perform : Step → Scripted Unit
  | .fresh hint slot => do
    let l ← Build.freshLabel hint
    tell (.label l)
    slot.forM fun name => note (·.setLabel name l)
  | .define label => do Build.define ((← notes).label label)
  | .jump label => do Build.jump ((← notes).label label)
  | .emit i => Build.emit i
  | .write s r => do Build.write s (← reg r)
  | .case r => do Build.case (← reg r)
  | .check r => do
    let r ← reg r
    Build.check r
    tell (.checked r)
  | .comment text => Build.comment text
  | .nop => Build.nop
  | .size => do tell (.size (← getThe Builder).code.size)
  | .isEmpty => do tell (.isEmpty (← getThe Builder).code.isEmpty)
  | .alloc slot => do
    let r ← Build.allocTemp
    tell (.temporary r)
    note (·.setReg slot r)
  | .free r => do Build.freeTemp (← reg r)
  | .block slot body =>
    Build.block fun scope => do
      keepScope slot scope
      performAll body
  | .restart scope => do Build.restart ((← notes).scope scope)
  | .exit scope => do Build.exit ((← notes).scope scope)
  | .cases r empty one hash => do
    Build.cases (← reg r) (performAll empty) (performAll one) (performAll hash)
  | .loopOn r slot one hash => do
    Build.loopOn (← reg r)
      (fun scope => do keepScope slot scope; performAll one)
      (fun scope => do keepScope slot scope; performAll hash)
  | .repeatOn r one hash => do
    Build.repeatOn (← reg r) (performAll one) (performAll hash)
  | .whileNonempty r body => do
    Build.whileNonempty (← reg r) (performAll body)
  | .withTemp slot body =>
    Build.withTemp fun temp => do
      tell (.temporary temp)
      note (·.setReg slot temp)
      performAll body
  | .call c => do Build.call (c.map (← notes).reg)
  | .routine r operands => do Build.routine r (operands.map (← notes).reg)
  | .attempt body => do
    let outcome ← Build.attempt (performAll body)
    tell (.outcome outcome)

/-- Perform steps one after another until one fails. -/
def performAll : List Step → Scripted Unit
  | [] => pure ()
  | step :: rest => do
    step.perform
    performAll rest

end

/-! ## Whole scripts -/

/-- What one top-level step did. -/
structure Report where
  result : Except BuildError Unit
  /-- The values told during the step. -/
  values : Array Value
  /-- The instructions that the step appended. -/
  emitted : Array Instruction

/-- Perform a step at the top level. -/
def Step.report (step : Step) (b : Builder) (n : Notes) : Report × Builder × Notes :=
  let (result, after, n) := step.perform.perform b { n with values := #[] }
  let emitted := after.code.extract b.code.size after.code.size
  ({ result, values := n.values, emitted }, after, n)

namespace Script

/-- Perform the steps of a script at the top level, whether they fail or not. -/
def runFrom (b : Builder) (n : Notes) : Script → List Report × Builder
  | [] => ([], b)
  | step :: rest =>
    let (report, b, n) := step.report b n
    let (reports, b) := runFrom b n rest
    (report :: reports, b)

/-- Run a script on a builder. -/
def run (script : Script) (b : Builder) : List Report × Builder :=
  runFrom b {} script

end Script

end TextMachine
