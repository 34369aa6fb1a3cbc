import TextMachine.Build.Basic

/-!
# Control structures

Blocks, three-way dispatch and loops, built from labels and jumps alone.

A *block* lies between two labels that are made before its body is built, so that the body can jump
to either. `case` moves 1, 2 or 3 positions ahead, so the three jumps right after it are the table
that `cases` dispatches through.
-/

namespace TextMachine

/-- The labels at the two ends of a block. -/
structure Scope where
  start : Label
  finish : Label
deriving DecidableEq

namespace Build

variable {σ : Type}

/-- Jump to the beginning of a block. -/
def restart (scope : Scope) : Build σ Unit :=
  jump scope.start

/-- Jump past the end of a block. -/
def exit (scope : Scope) : Build σ Unit :=
  jump scope.finish

/-- A block between two new labels. -/
def block (body : Scope → Build σ Unit) : Build σ Unit := do
  let start ← freshLabel "start"
  let finish ← freshLabel "end"
  define start
  body { start, finish }
  define finish

/-- Consume the first symbol of a register and go to the body for it: `empty` if there was none,
`one` or `hash` by what it was. The last body runs into the end of the structure. -/
def cases (r : Reg) (empty one hash : Build σ Unit) : Build σ Unit := do
  let onEmpty ← freshLabel "empty"
  let onOne ← freshLabel "one"
  let onHash ← freshLabel "hash"
  let post ← freshLabel "post"
  case r
  jump onEmpty
  jump onOne
  jump onHash
  jump post
  define onEmpty
  empty
  jump post
  define onOne
  one
  jump post
  define onHash
  hash
  define post

/-- Consume a register symbol by symbol until it is empty, with a body for each kind of symbol. The
bodies can restart the loop or leave it early. -/
def loopOn (r : Reg) (one hash : Scope → Build σ Unit) : Build σ Unit :=
  block fun scope =>
    cases r
      (exit scope)
      (do one scope; restart scope)
      (do hash scope; restart scope)

/-- Consume a register symbol by symbol until it is empty. -/
def repeatOn (r : Reg) (one hash : Build σ Unit) : Build σ Unit :=
  loopOn r (fun _ => one) (fun _ => hash)

/-- Drop a symbol of a register and perform `body`, until the register is empty. -/
def whileNonempty (r : Reg) (body : Build σ Unit) : Build σ Unit :=
  block fun scope => do
    cases r (exit scope) (pure ()) (pure ())
    body
    restart scope

/-- Perform `body` with a temporary register, given back however `body` ends. The register is to be
empty at the beginning, and `body` to leave it so. -/
def withTemp (body : Reg → Build σ Unit) : Build σ Unit := do
  let temp ← allocTemp
  let outcome ← attempt (body temp)
  freeTemp temp
  ofExcept outcome

end Build

end TextMachine
