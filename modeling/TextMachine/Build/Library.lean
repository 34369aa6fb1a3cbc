import TextMachine.Build.Control

/-!
# The library of routines

Each routine checks its operands before it emits anything: every one must be usable, and no two may
be the same register (moving a register onto itself, for one, would never end). Temporaries are left
empty.
-/

namespace TextMachine

namespace Build

variable {σ : Type}

/-- Check the operands of a routine from left to right: each must be usable and differ from those
after it. -/
def checkOperands : List Reg → Build σ Unit
  | [] => pure ()
  | r :: rest => do
    check r
    if r ∈ rest then
      throw (.aliased r)
    checkOperands rest

/-- Append `source` to `target` and empty `source`. -/
def move (source target : Reg) : Build σ Unit := do
  checkOperands [source, target]
  repeatOn source (write .one target) (write .hash target)

/-- Append `source` to `target`. What is read off `source` is also kept in a temporary, and moved
back. -/
def copy (source target : Reg) : Build σ Unit := do
  checkOperands [source, target]
  withTemp fun temp => do
    repeatOn source
      (do write .one target; write .one temp)
      (do write .hash target; write .hash temp)
    move temp source

/-- Empty a register. -/
def clear (r : Reg) : Build σ Unit := do
  checkOperands [r]
  whileNonempty r (pure ())

/-- Exchange two registers. -/
def swap (left right : Reg) : Build σ Unit := do
  checkOperands [left, right]
  withTemp fun temp => do
    move left temp
    move right left
    move temp right

/-- Put a symbol in front of a register: the symbol goes to an empty temporary, the register after
it, and all of it back. -/
def prepend (s : Symbol) (target : Reg) : Build σ Unit :=
  withTemp fun temp => do
    write s temp
    move target temp
    move temp target

/-- Put the reverse of `source` in front of `target` and empty `source`. -/
def reverse (source target : Reg) : Build σ Unit := do
  checkOperands [source, target]
  repeatOn source (prepend .one target) (prepend .hash target)

/-- The code of a call. -/
def call : Call Reg → Build σ Unit
  | .move source target => move source target
  | .copy source target => copy source target
  | .clear r => clear r
  | .swap left right => swap left right
  | .reverse source target => reverse source target

/-- The code of a routine on the given registers, under a comment that names the call. A wrong
number of registers fails before the comment, a bad register after it. -/
def routine (r : Routine) (regs : List Reg) : Build σ Unit :=
  match r.call? regs with
  | none => throw (.arity r regs.length)
  | some c => do
    comment c.header
    call c

end Build

end TextMachine
