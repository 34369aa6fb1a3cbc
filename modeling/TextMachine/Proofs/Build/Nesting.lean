import TextMachine.Proofs.Build.Recipes
import TextMachine.Proofs.Build.Sessions
import TextMachine.Proofs.Build.Temporaries
import Mathlib.Order.Bounds.Defs

/-!
# Nested temporaries

A recipe that takes temporaries by means of `withTemp` only is a tree of calls inside each other and
one after another. `Nesting` is that tree: it says how a recipe is put together, with `withTemp` as
a way of its own. The control structures have one if their bodies do (`Nesting.block` and so on),
and so have all structured programs and the routines (`Structured.nesting`, `Nesting.routine`).

Along a tree it can be followed how a recipe is performed. `Nesting.ComesTo` says which of its parts
are come to, on which builder, and inside which temporaries. Since every part gives back what it
took (`Nesting.pool_perform`), the temporaries in use are those of the enclosing bodies and those
that were in use at the beginning, and nothing else (`Nesting.ComesTo.inside`).
-/

namespace TextMachine

/-- An operation that neither takes a temporary nor gives one back. -/
def Primitive.KeepsPool {α : Type} : Primitive α → Prop
  | allocTemp => False
  | freeTemp _ => False
  | _ => True

/-! ## Trees of calls -/

/-- How a recipe is put together so that it takes temporaries by means of `withTemp` only. -/
inductive Nesting {σ : Type} : {α : Type} → Recipe σ α → Type 1 where
  | pure {α : Type} (a : α) : Nesting (.pure a)
  | throw {α : Type} (e : BuildError) : Nesting (.throw e : Recipe σ α)
  | bind {α β : Type} {x : Recipe σ α} {f : α → Recipe σ β} (first : Nesting x)
    (second : ∀ a, Nesting (f a)) : Nesting (.bind x f)
  | attempt {α : Type} {x : Recipe σ α} (inside : Nesting x) : Nesting (.attempt x)
  | body {x : Recipe σ Unit} (inside : Nesting x) : Nesting (.body x)
  | getClient : Nesting .getClient
  | modifyClient (f : σ → σ) : Nesting (.modifyClient f)
  | getBuilder : Nesting .getBuilder
  | operation {α : Type} {op : Primitive α} (h : op.KeepsPool) : Nesting (.operation op)
  | withTemp {f : Reg → Recipe σ Unit} (inside : ∀ temp, Nesting (f temp)) :
    Nesting (Recipe.withTemp f)

namespace Nesting

variable {σ : Type}

def block {f : Scope → Recipe σ Unit} (inside : ∀ scope, Nesting (f scope)) :
    Nesting (Recipe.block f) :=
  .bind (.operation trivial) fun _ => .bind (.operation trivial) fun _ =>
    .bind (.operation trivial) fun _ => .bind (inside _) fun _ => .operation trivial

def cases {r : Reg} {e o h : Recipe σ Unit} (empty : Nesting e) (one : Nesting o)
    (hash : Nesting h) : Nesting (Recipe.cases r e o h) :=
  .bind (.operation trivial) fun _ => .bind (.operation trivial) fun _ =>
    .bind (.operation trivial) fun _ => .bind (.operation trivial) fun _ =>
      .bind (.operation trivial) fun _ => .bind (.operation trivial) fun _ =>
        .bind (.operation trivial) fun _ => .bind (.operation trivial) fun _ =>
          .bind (.operation trivial) fun _ =>
            .bind (.operation trivial) fun _ => .bind (.body empty) fun _ =>
            .bind (.operation trivial) fun _ =>
            .bind (.operation trivial) fun _ => .bind (.body one) fun _ =>
            .bind (.operation trivial) fun _ =>
            .bind (.operation trivial) fun _ => .bind (.body hash) fun _ =>
            .operation trivial

def loopOn {r : Reg} {o h : Scope → Recipe σ Unit} (one : ∀ scope, Nesting (o scope))
    (hash : ∀ scope, Nesting (h scope)) : Nesting (Recipe.loopOn r o h) :=
  block fun scope => cases (.operation trivial)
    (.bind (.body (one scope)) fun _ => .operation trivial)
    (.bind (.body (hash scope)) fun _ => .operation trivial)

def repeatOn {r : Reg} {o h : Recipe σ Unit} (one : Nesting o) (hash : Nesting h) :
    Nesting (Recipe.repeatOn r o h) :=
  loopOn (fun _ => .body one) fun _ => .body hash

def whileNonempty {r : Reg} {x : Recipe σ Unit} (inside : Nesting x) :
    Nesting (Recipe.whileNonempty r x) :=
  block fun _ => .bind (cases (.operation trivial) (.pure ()) (.pure ())) fun _ =>
    .bind (.body inside) fun _ => .operation trivial

def ite {α : Type} {c : Prop} [inst : Decidable c] {x y : Recipe σ α} (yes : Nesting x)
    (no : Nesting y) : Nesting (if c then x else y) :=
  match inst with
  | .isTrue _ => yes
  | .isFalse _ => no

def checkOperands : (regs : List Reg) → Nesting (Recipe.checkOperands regs : Recipe σ Unit)
  | [] => .pure ()
  | _ :: rest => .bind (.operation trivial) fun _ =>
    ite (.bind (.throw _) fun _ => checkOperands rest) (checkOperands rest)

end Nesting

/-- Structured programs take their temporaries by means of `withTemp`. -/
def Structured.nesting {σ : Type} {n : Nat} : (p : Structured n) → (scopes : Fin n → Scope) →
    Nesting (p.recipe scopes : Recipe σ Unit)
  | write _ _, _ => .operation trivial
  | comment _, _ => .operation trivial
  | nop, _ => .operation trivial
  | operands regs, _ => .checkOperands regs
  | seq p q, scopes => .bind (p.nesting scopes) fun _ => q.nesting scopes
  | restart _, _ => .operation trivial
  | exit _, _ => .operation trivial
  | cases _ empty one hash, scopes =>
    .cases (empty.nesting scopes) (one.nesting scopes) (hash.nesting scopes)
  | block inside, scopes => .block fun scope => inside.nesting (Fin.cons scope scopes)
  | loopOn _ one hash, scopes =>
    .loopOn (fun scope => one.nesting (Fin.cons scope scopes))
      fun scope => hash.nesting (Fin.cons scope scopes)
  | repeatOn _ one hash, scopes => .repeatOn (one.nesting scopes) (hash.nesting scopes)
  | whileNonempty _ inside, scopes => .whileNonempty (inside.nesting scopes)
  | withTemp inside, scopes => .withTemp fun temp => (inside temp).nesting scopes

namespace Nesting

variable {σ : Type}

def call (c : Call Reg) : Nesting (Recipe.call c : Recipe σ Unit) :=
  (Structured.call c).nesting Fin.elim0

def routine (r : Routine) (regs : List Reg) : Nesting (Recipe.routine r regs : Recipe σ Unit) := by
  unfold Recipe.routine
  exact match r.call? regs with
    | none => .throw _
    | some c => .bind (.operation trivial) fun _ => call c

/-! ## What is come to -/

/-- To perform a recipe on a builder and a client's state comes to performing a part of it on
others, inside bodies that were given the temporaries `temps`, the innermost first. -/
inductive ComesTo : {α β : Type} → {p : Recipe σ α} → {q : Recipe σ β} → Nesting p → Builder → σ →
    List Reg → Nesting q → Builder → σ → Prop where
  | here {α : Type} {p : Recipe σ α} (t : Nesting p) (b : Builder) (s : σ) :
    ComesTo t b s [] t b s
  | first {α β γ : Type} {x : Recipe σ α} {f : α → Recipe σ β} {q : Recipe σ γ} {t : Nesting x}
    {rest : ∀ a, Nesting (f a)} {u : Nesting q} {b s temps b' s'} :
    ComesTo t b s temps u b' s' → ComesTo (.bind t rest) b s temps u b' s'
  /-- What follows is only come to if the first part succeeds. -/
  | second {α β γ : Type} {x : Recipe σ α} {f : α → Recipe σ β} {q : Recipe σ γ} {t : Nesting x}
    {rest : ∀ a, Nesting (f a)} {u : Nesting q} {b s a b₁ s₁ temps b' s'} :
    x.build.perform b s = (.ok a, b₁, s₁) → ComesTo (rest a) b₁ s₁ temps u b' s' →
    ComesTo (.bind t rest) b s temps u b' s'
  | attempt {α γ : Type} {x : Recipe σ α} {q : Recipe σ γ} {t : Nesting x} {u : Nesting q}
    {b s temps b' s'} :
    ComesTo t b s temps u b' s' → ComesTo (.attempt t) b s temps u b' s'
  | body {γ : Type} {x : Recipe σ Unit} {q : Recipe σ γ} {t : Nesting x} {u : Nesting q}
    {b s temps b' s'} :
    ComesTo t b s temps u b' s' → ComesTo (.body t) b s temps u b' s'
  /-- The body is given the register that the builder hands out. -/
  | withTemp {γ : Type} {f : Reg → Recipe σ Unit} {q : Recipe σ γ} {t : ∀ temp, Nesting (f temp)}
    {u : Nesting q} {b s r b₁ s₁ temps b' s'} :
    Build.allocTemp.perform b s = (.ok r, b₁, s₁) → ComesTo (t r) b₁ s₁ temps u b' s' →
    ComesTo (.withTemp t) b s (temps ++ [r]) u b' s'

namespace ComesTo

variable {α β γ : Type} {p : Recipe σ α} {q : Recipe σ β} {q' : Recipe σ γ} {t : Nesting p}
  {u : Nesting q} {v : Nesting q'} {b b₁ b₂ : Builder} {s s₁ s₂ : σ} {temps temps' : List Reg}

theorem trans (h : t.ComesTo b s temps u b₁ s₁) (h' : u.ComesTo b₁ s₁ temps' v b₂ s₂) :
    t.ComesTo b s (temps' ++ temps) v b₂ s₂ := by
  induction h with
  | here t b s => rwa [List.append_nil]
  | first _ ih => exact .first (ih h')
  | second hx _ ih => exact .second hx (ih h')
  | attempt _ ih => exact .attempt (ih h')
  | body _ ih => exact .body (ih h')
  | withTemp halloc _ ih =>
    rw [← List.append_assoc]
    exact .withTemp halloc (ih h')

end ComesTo

end Nesting

/-! ## The temporaries in use -/

theorem Build.perform_withTemp {σ : Type} (body : Reg → Build σ Unit) (b : Builder) (s : σ) :
    (Build.withTemp body).perform b s =
      let (result, b', s') :=
        (body b.pool.leastFree).perform { b with pool := b.pool.take.2 } s
      (result, { b' with pool := b'.pool.release b.pool.leastFree }, s') := by
  simp [Build.withTemp]

theorem Primitive.KeepsPool.pool_perform {σ α : Type} {op : Primitive α} (h : op.KeepsPool)
    (b : Builder) (s : σ) : (op.build.perform b s).2.1.pool = b.pool := by
  cases op with
  | check r => rw [build, Build.perform_check]
  | freshLabel hint => rfl
  | define l =>
    rw [build, Build.perform_define]
    split <;> rfl
  | emit i => rfl
  | write symbol r =>
    rw [build, Build.perform_write]
    split <;> rfl
  | case r =>
    rw [build, Build.perform_case]
    split <;> rfl
  | allocTemp => exact h.elim
  | freeTemp r => exact h.elim

/-- However a tree ends, it has given back all that it took. -/
theorem Nesting.pool_perform {σ α : Type} {p : Recipe σ α} (t : Nesting p) (b : Builder) (s : σ) :
    (p.build.perform b s).2.1.pool = b.pool := by
  induction t generalizing b s with
  | pure a => rfl
  | throw e => rfl
  | @bind _ _ x f _ _ ihx ihf =>
    have hx := ihx b s
    rw [Recipe.build, Build.perform_bind]
    rcases hperform : x.build.perform b s with ⟨e | a, mid, s'⟩
    · rwa [hperform] at hx
    · rw [hperform] at hx
      exact (ihf a mid s').trans hx
  | attempt _ ih => exact ih b s
  | body _ ih => exact ih b s
  | getClient => rfl
  | modifyClient f => rfl
  | getBuilder => rfl
  | operation h => exact h.pool_perform b s
  | withTemp _ ih =>
    rw [Recipe.build_withTemp, Build.perform_withTemp]
    show Pool.release _ _ = _
    rw [ih, Pool.release_take]

namespace Pool

/-- What a pool has to do with the one at the beginning, inside the given temporaries: these are in
use beside those that were. -/
structure Inside (start : Pool) (temps : List Reg) (p : Pool) : Prop where
  base : p.base = start.base
  le : ∀ r ∈ temps, start.base ≤ r.index
  mem_live : ∀ r, r ∈ p.live ↔ r ∈ temps ∨ r ∈ start.live
  filledTo : ∀ first, start.FilledTo first → p.FilledTo (first + temps.length)

theorem inside_nil (p : Pool) : p.Inside [] p where
  base := rfl
  le := nofun
  mem_live r := by simp
  filledTo _ h := h

/-- The register that is taken is one more temporary around what follows. -/
theorem Inside.of_take {start p : Pool} {temps : List Reg} (h : start.take.2.Inside temps p) :
    start.Inside (temps ++ [start.leastFree]) p where
  base := h.base
  le r hr := by
    rcases List.mem_append.1 hr with hr | hr
    · exact h.le r hr
    · rw [List.mem_singleton.1 hr]
      exact le_firstGap start.base start.live
  mem_live r := by
    rw [h.mem_live, List.mem_append, List.mem_singleton, or_assoc]
    exact or_congr_right mem_insertReg
  filledTo first hfirst := by
    have := h.filledTo (first + 1) hfirst.take
    rwa [List.length_append, List.length_singleton, Nat.add_comm temps.length, ← Nat.add_assoc]

end Pool

theorem Nesting.ComesTo.inside {σ α β : Type} {p : Recipe σ α} {q : Recipe σ β} {t : Nesting p}
    {u : Nesting q} {b b' : Builder} {s s' : σ} {temps : List Reg}
    (h : t.ComesTo b s temps u b' s') : b.pool.Inside temps b'.pool := by
  induction h with
  | here t b s => exact b.pool.inside_nil
  | first _ ih => exact ih
  | @second _ _ _ _ _ _ t _ _ b s _ _ _ _ _ _ hx _ ih =>
    have hkept := t.pool_perform b s
    rw [hx] at hkept
    rwa [hkept] at ih
  | attempt _ ih => exact ih
  | body _ ih => exact ih
  | withTemp halloc _ ih =>
    rw [Build.perform_allocTemp] at halloc
    cases halloc
    exact ih.of_take

/-- The temporaries of the enclosing bodies pass the check. -/
theorem Pool.Inside.check {start : Pool} {temps : List Reg} {b : Builder}
    (h : start.Inside temps b.pool) (hbase : 1 ≤ start.base) {r : Reg} (hr : r ∈ temps) :
    b.check r = .ok () := by
  have hpos : r.index ≠ 0 := Nat.ne_of_gt (Nat.le_trans hbase (h.le r hr))
  rw [Builder.check, if_neg hpos, if_neg]
  rintro ⟨-, -, hfree⟩
  exact hfree ((h.mem_live r).2 (.inl hr))

end TextMachine
