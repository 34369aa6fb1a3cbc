import TextMachine.Proofs.Structured.Basic

/-!
# Building steps as data

A building step is a function, and a function shows only how it ends. A *recipe* is a building step
written down: operations on the builder one after another, each of which may depend on what came of
those before, with failures that are passed on or caught. `Recipe.build` is the step that a recipe
describes. Since a recipe can be taken apart, it can also be said what happens on the way:

* `Recipe.states` lists the builders that it passes through, one for each operation;
* `Recipe.bodyFails` says whether the body of a control structure fails in it, at any depth, and
  whatever becomes of the failure.

The control structures have recipes (`Recipe.build_cases` and so on), and so have all structured
programs (`Structured.build_recipe`) and with them the routines of the library
(`Recipe.build_routine`).
-/

namespace TextMachine

/-- One operation on a builder, by the type of its answer. -/
inductive Primitive : Type → Type where
  | check (r : Reg) : Primitive Unit
  | freshLabel (hint : String) : Primitive Label
  | define (l : Label) : Primitive Unit
  /-- Append an instruction, unchecked. -/
  | emit (i : Instruction) : Primitive Unit
  | write (symbol : Symbol) (r : Reg) : Primitive Unit
  | case (r : Reg) : Primitive Unit
  | allocTemp : Primitive Reg
  | freeTemp (r : Reg) : Primitive Unit

/-- A building step written down. -/
inductive Recipe (σ : Type) : Type → Type 1 where
  | pure {α : Type} (a : α) : Recipe σ α
  | throw {α : Type} (e : BuildError) : Recipe σ α
  | bind {α β : Type} (x : Recipe σ α) (f : α → Recipe σ β) : Recipe σ β
  /-- Go on after a failure. -/
  | attempt {α : Type} (x : Recipe σ α) : Recipe σ (Except BuildError α)
  /-- The body of a control structure. -/
  | body (x : Recipe σ Unit) : Recipe σ Unit
  | getClient : Recipe σ σ
  | modifyClient (f : σ → σ) : Recipe σ Unit
  | getBuilder : Recipe σ Builder
  | operation {α : Type} (op : Primitive α) : Recipe σ α

namespace Primitive

/-- Perform an operation. -/
def build {σ α : Type} : Primitive α → Build σ α
  | check r => Build.check r
  | freshLabel hint => Build.freshLabel hint
  | define l => Build.define l
  | emit i => Build.emit i
  | write s r => Build.write s r
  | case r => Build.case r
  | allocTemp => Build.allocTemp
  | freeTemp r => Build.freeTemp r

end Primitive

namespace Recipe

variable {σ : Type}

instance : Monad (Recipe σ) where
  pure := .pure
  bind := .bind

/-- The building step that a recipe describes. -/
def build {α : Type} : Recipe σ α → Build σ α
  | .pure a => Pure.pure a
  | .throw e => MonadExcept.throw e
  | .bind x f => do (f (← x.build)).build
  | .attempt x => Build.attempt x.build
  | .body x => x.build
  | .getClient => getThe σ
  | .modifyClient f => modifyThe σ f
  | .getBuilder => getThe Builder
  | .operation op => op.build

/-- The builders that a recipe passes through: what each of its operations leaves, in order. -/
def states {α : Type} : Recipe σ α → Builder → σ → List Builder
  | .bind x f, b, s =>
    x.states b s ++
      match x.build.perform b s with
      | (.ok a, b, s) => (f a).states b s
      | (.error _, _, _) => []
  | .attempt x, b, s => x.states b s
  | .body x, b, s => x.states b s
  | .operation op, b, s => [(op.build.perform b s).2.1]
  | _, _, _ => []

/-- Whether the body of some control structure fails. -/
def bodyFails {α : Type} : Recipe σ α → Builder → σ → Bool
  | .bind x f, b, s =>
    x.bodyFails b s ||
      match x.build.perform b s with
      | (.ok a, b, s) => (f a).bodyFails b s
      | (.error _, _, _) => false
  | .attempt x, b, s => x.bodyFails b s
  | .body x, b, s => x.bodyFails b s || !(x.build.perform b s).1.isOk
  | _, _, _ => false

/-! ## Control structures

Word for word the control structures themselves, with the bodies marked as such. -/

def freshLabel (hint : String) : Recipe σ Label :=
  operation (.freshLabel hint)

def define (l : Label) : Recipe σ Unit :=
  operation (.define l)

def jump (l : Label) : Recipe σ Unit :=
  operation (.emit (.jump l))

def comment (text : String) : Recipe σ Unit :=
  operation (.emit (.comment text))

def nop : Recipe σ Unit :=
  operation (.emit .nop)

def write (symbol : Symbol) (r : Reg) : Recipe σ Unit :=
  operation (.write symbol r)

def case (r : Reg) : Recipe σ Unit :=
  operation (.case r)

def restart (scope : Scope) : Recipe σ Unit :=
  jump scope.start

def exit (scope : Scope) : Recipe σ Unit :=
  jump scope.finish

def block (inside : Scope → Recipe σ Unit) : Recipe σ Unit := do
  let start ← freshLabel "start"
  let finish ← freshLabel "end"
  define start
  inside { start, finish }
  define finish

def cases (r : Reg) (empty one hash : Recipe σ Unit) : Recipe σ Unit := do
  let onEmpty ← freshLabel "empty"
  let onOne ← freshLabel "one"
  let onHash ← freshLabel "hash"
  let post ← freshLabel "post"
  case r
  jump onEmpty
  jump onOne
  jump onHash
  jump post
  define onEmpty
  body empty
  jump post
  define onOne
  body one
  jump post
  define onHash
  body hash
  define post

def loopOn (r : Reg) (one hash : Scope → Recipe σ Unit) : Recipe σ Unit :=
  block fun scope =>
    cases r
      (exit scope)
      (do body (one scope); restart scope)
      (do body (hash scope); restart scope)

def repeatOn (r : Reg) (one hash : Recipe σ Unit) : Recipe σ Unit :=
  loopOn r (fun _ => body one) (fun _ => body hash)

def whileNonempty (r : Reg) (inside : Recipe σ Unit) : Recipe σ Unit :=
  block fun scope => do
    cases r (exit scope) (pure ()) (pure ())
    body inside
    restart scope

def ofExcept {α : Type} : Except BuildError α → Recipe σ α
  | .ok a => pure a
  | .error e => throw e

def withTemp (inside : Reg → Recipe σ Unit) : Recipe σ Unit := do
  let temp ← operation .allocTemp
  let outcome ← attempt (inside temp)
  operation (.freeTemp temp)
  ofExcept outcome

def checkOperands : List Reg → Recipe σ Unit
  | [] => pure ()
  | r :: rest => do
    operation (.check r)
    if r ∈ rest then
      throw (.aliased r)
    checkOperands rest

/-! The recipes describe what they are named for. -/

theorem build_block (inside : Scope → Recipe σ Unit) :
    (block inside).build = Build.block fun scope => (inside scope).build := rfl

theorem build_cases (r : Reg) (empty one hash : Recipe σ Unit) :
    (cases r empty one hash).build = Build.cases r empty.build one.build hash.build := rfl

theorem build_loopOn (r : Reg) (one hash : Scope → Recipe σ Unit) :
    (loopOn r one hash).build =
      Build.loopOn r (fun scope => (one scope).build) (fun scope => (hash scope).build) := rfl

theorem build_repeatOn (r : Reg) (one hash : Recipe σ Unit) :
    (repeatOn r one hash).build = Build.repeatOn r one.build hash.build := rfl

theorem build_whileNonempty (r : Reg) (inside : Recipe σ Unit) :
    (whileNonempty r inside).build = Build.whileNonempty r inside.build := rfl

theorem build_ofExcept {α : Type} (result : Except BuildError α) :
    (ofExcept result : Recipe σ α).build = Build.ofExcept result := by
  cases result <;> rfl

theorem build_withTemp (inside : Reg → Recipe σ Unit) :
    (withTemp inside).build = Build.withTemp fun temp => (inside temp).build := by
  show (do
    let temp ← Build.allocTemp
    let outcome ← Build.attempt (inside temp).build
    Build.freeTemp temp
    (ofExcept outcome).build) = _
  simp only [build_ofExcept]
  rfl

theorem build_checkOperands (regs : List Reg) :
    (checkOperands regs : Recipe σ Unit).build = Build.checkOperands regs := by
  induction regs with
  | nil => rfl
  | cons r rest ih =>
    rw [checkOperands, Build.checkOperands, ← ih]
    by_cases hmem : r ∈ rest
    · simp only [if_pos hmem]
      rfl
    · simp only [if_neg hmem]
      rfl

end Recipe

/-! ## Structured programs -/

namespace Structured

variable {σ : Type}

/-- A structured program inside the given scopes, as a recipe. -/
def recipe {n : Nat} : Structured n → (Fin n → Scope) → Recipe σ Unit
  | write symbol r, _ => .write symbol r
  | comment text, _ => .comment text
  | nop, _ => .nop
  | operands regs, _ => .checkOperands regs
  | seq p q, scopes => do
    p.recipe scopes
    q.recipe scopes
  | restart k, scopes => .restart (scopes k)
  | exit k, scopes => .exit (scopes k)
  | cases r empty one hash, scopes =>
    .cases r (empty.recipe scopes) (one.recipe scopes) (hash.recipe scopes)
  | block inside, scopes => .block fun scope => inside.recipe (Fin.cons scope scopes)
  | loopOn r one hash, scopes =>
    .loopOn r (fun scope => one.recipe (Fin.cons scope scopes))
      (fun scope => hash.recipe (Fin.cons scope scopes))
  | repeatOn r one hash, scopes => .repeatOn r (one.recipe scopes) (hash.recipe scopes)
  | whileNonempty r inside, scopes => .whileNonempty r (inside.recipe scopes)
  | withTemp inside, scopes => .withTemp fun temp => (inside temp).recipe scopes

theorem build_recipe {n : Nat} (p : Structured n) (scopes : Fin n → Scope) :
    (p.recipe scopes : Recipe σ Unit).build = p.build scopes := by
  induction p with
  | write symbol r => rfl
  | comment text => rfl
  | nop => rfl
  | operands regs => exact Recipe.build_checkOperands regs
  | seq p q ihp ihq =>
    show (do (p.recipe scopes).build; (q.recipe scopes).build) = _
    rw [ihp, ihq]
    rfl
  | restart k => rfl
  | exit k => rfl
  | cases r empty one hash ihe iho ihh =>
    rw [recipe, Recipe.build_cases, ihe, iho, ihh, build]
  | block inside ih =>
    rw [recipe, Recipe.build_block, build]
    simp only [ih]
  | loopOn r one hash iho ihh =>
    rw [recipe, Recipe.build_loopOn, build]
    simp only [iho, ihh]
  | repeatOn r one hash iho ihh => rw [recipe, Recipe.build_repeatOn, iho, ihh, build]
  | whileNonempty r inside ih => rw [recipe, Recipe.build_whileNonempty, ih, build]
  | withTemp inside ih =>
    rw [recipe, Recipe.build_withTemp, build]
    simp only [ih]

end Structured

/-! ## The library -/

namespace Recipe

variable {σ : Type}

def call (c : Call Reg) : Recipe σ Unit :=
  (Structured.call c).recipe Fin.elim0

def routine (r : Routine) (regs : List Reg) : Recipe σ Unit :=
  match r.call? regs with
  | none => throw (.arity r regs.length)
  | some c => do
    comment c.header
    call c

theorem build_call (c : Call Reg) : (call c : Recipe σ Unit).build = Build.call c := by
  rw [call, Structured.build_recipe, Structured.build_call]

theorem build_routine (r : Routine) (regs : List Reg) :
    (routine r regs : Recipe σ Unit).build = Build.routine r regs := by
  unfold routine Build.routine
  cases r.call? regs with
  | none => rfl
  | some c =>
    show (do Build.comment c.header; (call c).build) = _
    rw [build_call]

end Recipe

end TextMachine
