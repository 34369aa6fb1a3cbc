import TextMachine.Proofs.Build.Histories
import TextMachine.Proofs.Script.Labels

/-!
# Scripts as recipes

A script is data, but its steps do not name the operations that they come down to. `Step.recipe`
and `Script.recipe` do: they describe what the steps perform (`Step.build_recipe`,
`Script.perform_recipe`), down to the bodies inside the routines that a script calls. Steps that
append no instruction of their own unchecked have recipes that do not either
(`Step.checked_recipe`).
-/

namespace TextMachine

namespace Recipe

def tell (v : Value) : Recipe Notes Unit :=
  modifyClient (·.tell v)

def keepLabel (slot : Option String) (l : Label) : Recipe Notes Unit :=
  slot.forM fun name => modifyClient (·.setLabel name l)

def keepScope (slot : Option String) (scope : Scope) : Recipe Notes Unit :=
  slot.forM fun name => modifyClient (·.setScope name scope)

def reg (r : RegRef) : Recipe Notes Reg :=
  return (← getClient).reg r

theorem build_keepScope (slot : Option String) (scope : Scope) :
    (keepScope slot scope).build = Scripted.keepScope slot scope := by
  cases slot <;> rfl

theorem Checked.keepScope (slot : Option String) (scope : Scope) :
    (Recipe.keepScope slot scope).Checked := by
  cases slot <;> trivial

end Recipe

mutual

/-- A step as a recipe. -/
def Step.recipe : Step → Recipe Notes Unit
  | .fresh hint slot => do
    let l ← .freshLabel hint
    .tell (.label l)
    .keepLabel slot l
  | .define label => do .define ((← .getClient).label label)
  | .jump label => do .jump ((← .getClient).label label)
  | .emit i => .operation (.emit i)
  | .write s r => do .write s (← .reg r)
  | .case r => do .case (← .reg r)
  | .check r => do
    let r ← .reg r
    .operation (.check r)
    .tell (.checked r)
  | .comment text => .comment text
  | .nop => .nop
  | .size => do .tell (.size (← .getBuilder).code.size)
  | .isEmpty => do .tell (.isEmpty (← .getBuilder).code.isEmpty)
  | .alloc slot => do
    let r ← .operation .allocTemp
    .tell (.temporary r)
    .modifyClient (·.setReg slot r)
  | .free r => do .operation (.freeTemp (← .reg r))
  | .block slot body =>
    .block fun scope => do
      .keepScope slot scope
      recipeAll body
  | .restart scope => do .restart ((← .getClient).scope scope)
  | .exit scope => do .exit ((← .getClient).scope scope)
  | .cases r empty one hash => do
    .cases (← .reg r) (recipeAll empty) (recipeAll one) (recipeAll hash)
  | .loopOn r slot one hash => do
    .loopOn (← .reg r)
      (fun scope => do .keepScope slot scope; recipeAll one)
      (fun scope => do .keepScope slot scope; recipeAll hash)
  | .repeatOn r one hash => do .repeatOn (← .reg r) (recipeAll one) (recipeAll hash)
  | .whileNonempty r body => do .whileNonempty (← .reg r) (recipeAll body)
  | .withTemp slot body =>
    .withTemp fun temp => do
      .tell (.temporary temp)
      .modifyClient (·.setReg slot temp)
      recipeAll body
  | .call c => do .call (c.map (← .getClient).reg)
  | .routine r operands => do .routine r (operands.map (← .getClient).reg)
  | .attempt body => do
    let outcome ← .attempt (recipeAll body)
    .tell (.outcome outcome)

/-- Steps one after another as a recipe. -/
def recipeAll : List Step → Recipe Notes Unit
  | [] => pure ()
  | step :: rest => do
    step.recipe
    recipeAll rest

end

/-- A script as a recipe: the failures of its steps are caught. -/
def Script.recipe : Script → Recipe Notes Unit
  | [] => pure ()
  | step :: rest => do
    .modifyClient ({ · with values := #[] })
    let _ ← .attempt step.recipe
    recipe rest

/-! ## What the recipes describe -/

mutual

theorem Step.build_recipe (step : Step) : step.recipe.build = step.perform := by
  match step with
  | .fresh hint slot => cases slot <;> rfl
  | .define label => rfl
  | .jump label => rfl
  | .emit i => rfl
  | .write s r => rfl
  | .case r => rfl
  | .check r => rfl
  | .comment text => rfl
  | .nop => rfl
  | .size => rfl
  | .isEmpty => rfl
  | .alloc slot => rfl
  | .free r => rfl
  | .block slot body =>
    show (Build.block fun scope => do (Recipe.keepScope slot scope).build; (recipeAll body).build) =
      Build.block fun scope => do Scripted.keepScope slot scope; performAll body
    simp only [Recipe.build_keepScope, build_recipeAll body]
  | .restart scope => rfl
  | .exit scope => rfl
  | .cases r empty one hash =>
    show (Scripted.reg r >>= fun r => Build.cases r (recipeAll empty).build (recipeAll one).build
      (recipeAll hash).build) = _
    rw [build_recipeAll empty, build_recipeAll one, build_recipeAll hash, Step.perform]
  | .loopOn r slot one hash =>
    show (Scripted.reg r >>= fun r => Build.loopOn r
      (fun scope => do (Recipe.keepScope slot scope).build; (recipeAll one).build)
      (fun scope => do (Recipe.keepScope slot scope).build; (recipeAll hash).build)) = _
    simp only [Recipe.build_keepScope, build_recipeAll one, build_recipeAll hash]
    rw [Step.perform]
  | .repeatOn r one hash =>
    show (do Build.repeatOn (← Scripted.reg r) (recipeAll one).build (recipeAll hash).build) = _
    rw [build_recipeAll one, build_recipeAll hash, Step.perform]
  | .whileNonempty r body =>
    show (do Build.whileNonempty (← Scripted.reg r) (recipeAll body).build) = _
    rw [build_recipeAll body, Step.perform]
  | .withTemp slot body =>
    rw [Step.recipe, Recipe.build_withTemp, Step.perform]
    show (Build.withTemp fun temp => do
      Scripted.tell (.temporary temp)
      Scripted.note (·.setReg slot temp)
      (recipeAll body).build) = _
    rw [build_recipeAll body]
  | .call c =>
    show (do (Recipe.call (c.map (← Scripted.notes).reg)).build) = _
    simp only [Recipe.build_call]
    rfl
  | .routine r operands =>
    show (do (Recipe.routine r (operands.map (← Scripted.notes).reg)).build) = _
    simp only [Recipe.build_routine]
    rfl
  | .attempt body =>
    show (do Scripted.tell (.outcome (← Build.attempt (recipeAll body).build))) = _
    rw [build_recipeAll body, Step.perform]

theorem build_recipeAll (steps : List Step) : (recipeAll steps).build = performAll steps := by
  match steps with
  | [] => rfl
  | step :: rest =>
    show (do step.recipe.build; (recipeAll rest).build) = _
    rw [step.build_recipe, build_recipeAll rest, performAll]

end

/-- A script leaves the builder that its recipe leaves. -/
theorem Script.perform_recipe (script : Script) (b : Builder) (n : Notes) :
    ((recipe script).build.perform b n).2.1 = (script.runFrom b n).2 := by
  induction script generalizing b n with
  | nil => rfl
  | cons step rest ih =>
    have hstep : (recipe (step :: rest)).build.perform b n =
        (recipe rest).build.perform (step.report b n).2.1 (step.report b n).2.2 := by
      show (do let _ ← Build.attempt step.recipe.build; (recipe rest).build : Scripted Unit).perform
        b { n with values := #[] } = _
      rw [Step.build_recipe, Build.perform_bind, Build.perform_attempt]
      rfl
    rw [hstep, ih]
    rfl

/-! ## Unchecked instructions -/

mutual

theorem Step.checked_recipe {requests : List Operation} (hraw : ∀ i, .emit i ∉ requests)
    (step : Step) (h : step.requests ⊆ requests) : step.recipe.Checked := by
  match step with
  | .fresh hint slot => cases slot <;> exact .bind trivial fun _ => .bind trivial fun _ => trivial
  | .define label => exact .bind trivial fun _ => trivial
  | .jump label => exact .bind trivial fun _ => .jump _
  | .emit i => exact absurd (h List.mem_cons_self) (hraw i)
  | .write s r => exact .bind (.bind trivial fun _ => trivial) fun _ => trivial
  | .case r => exact .bind (.bind trivial fun _ => trivial) fun _ => trivial
  | .check r =>
    exact .bind (.bind trivial fun _ => trivial) fun _ => .bind trivial fun _ => trivial
  | .comment text => exact ⟨rfl, rfl⟩
  | .nop => exact ⟨rfl, rfl⟩
  | .size => exact .bind trivial fun _ => trivial
  | .isEmpty => exact .bind trivial fun _ => trivial
  | .alloc slot => exact .bind trivial fun _ => .bind trivial fun _ => trivial
  | .free r => exact .bind (.bind trivial fun _ => trivial) fun _ => trivial
  | .block slot body =>
    rw [Step.recipe]
    rw [Step.requests] at h
    exact .block fun _ => .bind (.keepScope slot _) fun _ => checked_recipeAll hraw body h
  | .restart scope => exact .bind trivial fun _ => .jump _
  | .exit scope => exact .bind trivial fun _ => .jump _
  | .cases r empty one hash =>
    rw [Step.recipe]
    rw [Step.requests] at h
    obtain ⟨h, hhash⟩ := List.append_subset.1 h
    obtain ⟨hempty, hone⟩ := List.append_subset.1 h
    exact .bind (.bind trivial fun _ => trivial) fun _ =>
      .cases (checked_recipeAll hraw empty hempty) (checked_recipeAll hraw one hone)
        (checked_recipeAll hraw hash hhash)
  | .loopOn r slot one hash =>
    rw [Step.recipe]
    rw [Step.requests] at h
    obtain ⟨hone, hhash⟩ := List.append_subset.1 h
    exact .bind (.bind trivial fun _ => trivial) fun _ => .loopOn
      (fun _ => .bind (.keepScope slot _) fun _ => checked_recipeAll hraw one hone)
      (fun _ => .bind (.keepScope slot _) fun _ => checked_recipeAll hraw hash hhash)
  | .repeatOn r one hash =>
    rw [Step.recipe]
    rw [Step.requests] at h
    obtain ⟨hone, hhash⟩ := List.append_subset.1 h
    exact .bind (.bind trivial fun _ => trivial) fun _ =>
      .repeatOn (checked_recipeAll hraw one hone) (checked_recipeAll hraw hash hhash)
  | .whileNonempty r body =>
    rw [Step.recipe]
    rw [Step.requests] at h
    exact .bind (.bind trivial fun _ => trivial) fun _ =>
      .whileNonempty (checked_recipeAll hraw body h)
  | .withTemp slot body =>
    rw [Step.recipe]
    rw [Step.requests] at h
    exact .withTemp fun _ => .bind trivial fun _ => .bind trivial fun _ =>
      checked_recipeAll hraw body h
  | .call c => exact .bind trivial fun _ => .call _
  | .routine r operands => exact .bind trivial fun _ => .routine r _
  | .attempt body =>
    rw [Step.recipe]
    rw [Step.requests] at h
    exact .bind (checked_recipeAll hraw body h) fun _ => trivial

theorem checked_recipeAll {requests : List Operation} (hraw : ∀ i, .emit i ∉ requests)
    (steps : List Step) (h : requestsAll steps ⊆ requests) : (recipeAll steps).Checked := by
  match steps with
  | [] => trivial
  | step :: rest =>
    obtain ⟨hstep, hrest⟩ := List.append_subset.1 h
    exact .bind (step.checked_recipe hraw hstep) fun _ => checked_recipeAll hraw rest hrest

end

theorem Script.checked_recipe {requests : List Operation} (hraw : ∀ i, .emit i ∉ requests)
    (script : Script) (h : requestsAll script ⊆ requests) : (recipe script).Checked := by
  induction script with
  | nil => trivial
  | cons step rest ih =>
    obtain ⟨hstep, hrest⟩ := List.append_subset.1 h
    exact .bind trivial fun _ => .bind (step.checked_recipe hraw hstep) fun _ => ih hrest

end TextMachine
