import TextMachine.Build.Pool
import TextMachine.Instruction
import TextMachine.Routine

/-!
# Building instruction streams

A builder owns the stream under construction, the counter that makes label names new, the set of
labels already defined, and the pool of temporaries. `Build` is the monad of building steps. A step
can fail; what it did to the builder before it failed stays done, and the one who catches the
failure goes on from there.

The parameter `σ` of `Build` is whatever state a client carries along; no operation here looks at
it.
-/

namespace TextMachine

/-! ## Errors -/

/-- Why a building step failed. -/
inductive BuildError where
  /-- A label defined for the second time. -/
  | duplicateLabel (label : Label)
  /-- Register 0, which does not exist. -/
  | zeroRegister
  /-- A routine was given the same register twice. -/
  | aliased (reg : Reg)
  /-- A register in the range of the temporaries that is not in use. -/
  | reserved (reg : Reg)
  /-- A routine was given a wrong number of registers. -/
  | arity (routine : Routine) (found : Nat)
deriving DecidableEq

namespace BuildError

/-- The wording of an error. -/
def message : BuildError → String
  | duplicateLabel l => "Label `" ++ l.name ++ "` is already bound"
  | zeroRegister => "Invalid register index 0, registers are numbered from 1"
  | aliased r =>
    "Register " ++ toString r.index ++ " passed twice, operands must be distinct"
  | reserved r =>
    "Register " ++ toString r.index ++ " lies in the temporary range and was not allocated"
  | arity r found =>
    "`" ++ r.name ++ "` takes " ++ toString r.arity ++ " register(s), got " ++ toString found

end BuildError

/-! ## The builder -/

/-- The state of a build. -/
structure Builder where
  /-- The stream so far. -/
  code : Array Instruction := #[]
  /-- The counter for the next new label. -/
  nextLabel : Nat := 0
  /-- The labels defined so far. -/
  defined : List Label := []
  /-- The temporaries. -/
  pool : Pool
  /-- Whether registers in the range of the temporaries are refused unless they are in use. -/
  guarded : Bool := true

namespace Builder

/-- The first temporary register unless another is asked for. -/
def defaultBase : Nat := 1000

/-- A builder with an empty stream, whose temporaries start at `base`. -/
def startingAt (base : Nat) : Builder :=
  { pool := .startingAt base }

/-- Append an instruction to the stream. -/
def append (b : Builder) (i : Instruction) : Builder :=
  { b with code := b.code.push i }

/-- Whether a register may be used. -/
def check (b : Builder) (r : Reg) : Except BuildError Unit :=
  if r.index = 0 then .error .zeroRegister
  else if b.guarded ∧ b.pool.Reserves r then .error (.reserved r)
  else .ok ()

end Builder

/-! ## Building steps -/

/-- Building steps that return an `α`, carrying along a state of type `σ`. -/
abbrev Build (σ : Type) := ExceptT BuildError (StateT Builder (StateM σ))

namespace Build

variable {σ α : Type}

/-- Perform the steps of `x` on a builder: how they end, and what they make of the builder and of
the client's state. -/
def perform (x : Build σ α) (b : Builder) (s : σ) : Except BuildError α × Builder × σ :=
  let ((result, b), s) := (x.run.run b).run s
  (result, b, s)

/-- Succeed or fail as `result` says. -/
def ofExcept : Except BuildError α → Build σ α
  | .ok a => pure a
  | .error e => throw e

/-- Perform `x` and return how it ended, in success either way. -/
def attempt (x : Build σ α) : Build σ (Except BuildError α) :=
  ExceptT.lift x.run

/-- Append an instruction, unchecked. -/
def emit (i : Instruction) : Build σ Unit :=
  modify (·.append i)

/-- Make a label with a new number. -/
def freshLabel (hint : String) : Build σ Label := do
  let counter := (← get).nextLabel
  modify ({ · with nextLabel := counter + 1 })
  return .numbered hint counter

/-- Define a label at this point of the stream. -/
def define (l : Label) : Build σ Unit := do
  if l ∈ (← get).defined then
    throw (.duplicateLabel l)
  modify fun b => { b with defined := l :: b.defined }
  emit (.setLabel l)

/-- Jump to a label. -/
def jump (l : Label) : Build σ Unit :=
  emit (.jump l)

/-- Fail unless a register may be used. -/
def check (r : Reg) : Build σ Unit := do
  ofExcept ((← get).check r)

/-- Append a symbol to a register. -/
def write (s : Symbol) (r : Reg) : Build σ Unit := do
  check r
  emit (.write s r)

/-- Consume the first symbol of a register and skip 0, 1 or 2 instructions by what it was. -/
def case (r : Reg) : Build σ Unit := do
  check r
  emit (.case r)

/-- Annotate what follows. -/
def comment (text : String) : Build σ Unit :=
  emit (.comment text)

/-- Add padding. -/
def nop : Build σ Unit :=
  emit .nop

/-- Take a temporary register. -/
def allocTemp : Build σ Reg := do
  let (r, pool) := (← get).pool.take
  modify ({ · with pool })
  return r

/-- Give a temporary register back. -/
def freeTemp (r : Reg) : Build σ Unit :=
  modify fun b => { b with pool := b.pool.release r }

/-! ### What the steps do

Each lemma says how a step ends and what it makes of the builder; no proof needs to look further
into the monad. -/

variable {β : Type} (b : Builder) (s : σ)

@[simp] theorem perform_pure (a : α) : (pure a : Build σ α).perform b s = (.ok a, b, s) := rfl

@[simp] theorem perform_throw (e : BuildError) :
    (throw e : Build σ α).perform b s = (.error e, b, s) := rfl

/-- A failure skips what follows. -/
@[simp] theorem perform_bind (x : Build σ α) (f : α → Build σ β) :
    (x >>= f).perform b s =
      match x.perform b s with
      | (.ok a, b, s) => (f a).perform b s
      | (.error e, b, s) => (.error e, b, s) := by
  simp only [perform, ExceptT.run_bind, StateT.run_bind]
  rcases (x.run.run b).run s with ⟨⟨e | a, b'⟩, s'⟩ <;> rfl

@[simp] theorem perform_get : (get : Build σ Builder).perform b s = (.ok b, b, s) := rfl

@[simp] theorem perform_modify (f : Builder → Builder) :
    (modify f : Build σ Unit).perform b s = (.ok (), f b, s) := rfl

@[simp] theorem perform_ofExcept (r : Except BuildError α) :
    (ofExcept r : Build σ α).perform b s = (r, b, s) := by
  cases r <;> rfl

@[simp] theorem perform_attempt (x : Build σ α) :
    (attempt x).perform b s = (.ok (x.perform b s).1, (x.perform b s).2) := rfl

@[simp] theorem perform_emit (i : Instruction) :
    (emit i).perform b s = (.ok (), b.append i, s) := rfl

@[simp] theorem perform_freshLabel (hint : String) :
    (freshLabel hint).perform b s =
      (.ok (.numbered hint b.nextLabel), { b with nextLabel := b.nextLabel + 1 }, s) := rfl

theorem perform_define (l : Label) :
    (define l).perform b s =
      if l ∈ b.defined then (.error (.duplicateLabel l), b, s)
      else (.ok (), { b with defined := l :: b.defined }.append (.setLabel l), s) := by
  by_cases h : l ∈ b.defined <;> simp [define, h]

@[simp] theorem perform_jump (l : Label) :
    (jump l).perform b s = (.ok (), b.append (.jump l), s) := rfl

@[simp] theorem perform_check (r : Reg) : (check r).perform b s = (b.check r, b, s) := by
  simp [check]

theorem perform_write (symbol : Symbol) (r : Reg) :
    (write symbol r).perform b s =
      match b.check r with
      | .ok () => (.ok (), b.append (.write symbol r), s)
      | .error e => (.error e, b, s) := by
  cases h : b.check r <;> simp [write, h]

theorem perform_case (r : Reg) :
    (case r).perform b s =
      match b.check r with
      | .ok () => (.ok (), b.append (.case r), s)
      | .error e => (.error e, b, s) := by
  cases h : b.check r <;> simp [case, h]

@[simp] theorem perform_comment (text : String) :
    (comment text).perform b s = (.ok (), b.append (.comment text), s) := rfl

@[simp] theorem perform_nop : nop.perform b s = (.ok (), b.append .nop, s) := rfl

@[simp] theorem perform_allocTemp :
    allocTemp.perform b s = (.ok b.pool.leastFree, { b with pool := b.pool.take.2 }, s) := rfl

@[simp] theorem perform_freeTemp (r : Reg) :
    (freeTemp r).perform b s = (.ok (), { b with pool := b.pool.release r }, s) := rfl

end Build

end TextMachine
