import Mathlib.Data.List.Forall2
import TextMachine.Build.Library

/-!
# Building twice, with different temporaries

Two builders whose temporaries start at different registers are to do the same, up to the names of
the temporaries. A `Rebasing` has the two first temporaries. Registers correspond if they are the
same one below both, or temporaries that lie equally far behind the first (`Reg.Rebased`), and from
there on everything that contains registers: instructions, errors, pools, builders.

`Build.Rebased` says of two building steps that on builders that correspond they end alike, with
builders that correspond. It has a rule for each primitive, for `bind` and for each control
structure, and the routines of the library follow. What makes the rules go through is that the
pools of both builders have gaps at the same places (`Pool.Rebased.take`), and that their checks
refuse the same registers (`Builder.Rebased.check`).
-/

namespace TextMachine

/-- Two ways to begin the temporaries. -/
structure Rebasing where
  /-- The first temporary of the one run. -/
  old : Nat
  /-- The first temporary of the other run. -/
  new : Nat
  old_pos : 0 < old
  new_pos : 0 < new

/-- Two computations both succeed, with `R` between what they return, or both fail, with `E` between
the errors. -/
inductive Alike {ε α α' : Type} (E : ε → ε → Prop) (R : α → α' → Prop) :
    Except ε α → Except ε α' → Prop where
  | ok {a : α} {a' : α'} (h : R a a') : Alike E R (.ok a) (.ok a')
  | error {e e' : ε} (h : E e e') : Alike E R (.error e) (.error e')

/-! ## Registers -/

namespace Reg

variable {t : Rebasing} {r r' q q' : Reg}

/-- A temporary, and the one as far behind the first in the other run. -/
def SameTemporary (t : Rebasing) (r r' : Reg) : Prop :=
  ∃ offset, r = ⟨t.old + offset⟩ ∧ r' = ⟨t.new + offset⟩

/-- A register, and what takes its place in the other run: itself if it lies below all temporaries.
-/
def Rebased (t : Rebasing) (r r' : Reg) : Prop :=
  (r' = r ∧ r.index < min t.old t.new) ∨ r.SameTemporary t r'

theorem SameTemporary.rebased (h : r.SameTemporary t r') : r.Rebased t r' :=
  .inr h

theorem rebased_of_lt {index : Nat} (h : index < min t.old t.new) :
    (⟨index⟩ : Reg).Rebased t ⟨index⟩ :=
  .inl ⟨rfl, h⟩

theorem Rebased.zero_iff (h : r.Rebased t r') : r.index = 0 ↔ r'.index = 0 := by
  have hold := t.old_pos
  have hnew := t.new_pos
  rcases h with ⟨rfl, -⟩ | ⟨k, rfl, rfl⟩
  · exact Iff.rfl
  · simp only
    omega

/-- In both runs the same registers lie where temporaries do. -/
theorem Rebased.le_iff (h : r.Rebased t r') : t.old ≤ r.index ↔ t.new ≤ r'.index := by
  rcases h with ⟨rfl, hlt⟩ | ⟨k, rfl, rfl⟩
  · omega
  · simp

theorem Rebased.eq_iff (hr : r.Rebased t r') (hq : q.Rebased t q') : r = q ↔ r' = q' := by
  have hindex : r.index = q.index ↔ r'.index = q'.index := by
    rcases hr with ⟨rfl, hr⟩ | ⟨k, rfl, rfl⟩
    · rcases hq with ⟨rfl, -⟩ | ⟨m, rfl, rfl⟩
      · exact Iff.rfl
      · simp only
        omega
    · rcases hq with ⟨rfl, hq⟩ | ⟨m, rfl, rfl⟩
      · simp only
        omega
      · simp only [Nat.add_left_cancel_iff]
  obtain ⟨_⟩ := r
  obtain ⟨_⟩ := q
  obtain ⟨_⟩ := r'
  obtain ⟨_⟩ := q'
  rwa [mk.injEq, mk.injEq]

theorem biUnique_rebased (t : Rebasing) : Relator.BiUnique (Rebased t) :=
  ⟨fun _ _ _ h h' => (h.eq_iff h').2 rfl, fun _ _ _ h h' => (h.eq_iff h').1 rfl⟩

theorem Rebased.mem_iff {regs regs' : List Reg} (hr : r.Rebased t r')
    (hregs : List.Forall₂ (Rebased t) regs regs') : r ∈ regs ↔ r' ∈ regs' :=
  List.rel_mem (biUnique_rebased t) hr hregs

end Reg

/-! ## Pools -/

variable {t : Rebasing}

theorem firstGap_rebased {regs regs' : List Reg}
    (h : List.Forall₂ (Reg.SameTemporary t) regs regs') (first : Nat) :
    ∃ offset, firstGap (t.old + first) regs = t.old + offset ∧
      firstGap (t.new + first) regs' = t.new + offset := by
  induction h generalizing first with
  | nil => exact ⟨first, rfl, rfl⟩
  | cons hr _ ih =>
    obtain ⟨k, rfl, rfl⟩ := hr
    simp only [firstGap, Nat.add_lt_add_iff_left, Nat.add_left_cancel_iff]
    split
    · exact ih first
    · split
      · exact ih (first + 1)
      · exact ⟨first, rfl, rfl⟩

theorem insertReg_rebased {r r' : Reg} {regs regs' : List Reg} (hr : r.SameTemporary t r')
    (h : List.Forall₂ (Reg.SameTemporary t) regs regs') :
    List.Forall₂ (Reg.SameTemporary t) (insertReg r regs) (insertReg r' regs') := by
  induction h with
  | nil => exact .cons hr .nil
  | cons hs hrest ih =>
    have hcons := List.Forall₂.cons hs hrest
    obtain ⟨k, rfl, rfl⟩ := hr
    obtain ⟨m, rfl, rfl⟩ := hs
    simp only [insertReg, Nat.add_lt_add_iff_left, Nat.add_left_cancel_iff]
    split
    · exact .cons ⟨k, rfl, rfl⟩ hcons
    · split
      · exact hcons
      · exact .cons ⟨m, rfl, rfl⟩ ih

/-- Pools in which the same temporaries are in use. -/
structure Pool.Rebased (t : Rebasing) (p p' : Pool) : Prop where
  base_eq : p.base = t.old
  base_eq' : p'.base = t.new
  live : List.Forall₂ (Reg.SameTemporary t) p.live p'.live

namespace Pool.Rebased

variable {p p' : Pool} {r r' : Reg}

theorem startingAt (t : Rebasing) :
    (Pool.startingAt t.old).Rebased t (Pool.startingAt t.new) where
  base_eq := Nat.max_eq_left t.old_pos
  base_eq' := Nat.max_eq_left t.new_pos
  live := .nil

theorem leastFree (h : p.Rebased t p') : p.leastFree.SameTemporary t p'.leastFree := by
  obtain ⟨offset, hgap, hgap'⟩ := firstGap_rebased h.live 0
  refine ⟨offset, congrArg Reg.mk ?_, congrArg Reg.mk ?_⟩
  · rw [h.base_eq]
    exact hgap
  · rw [h.base_eq']
    exact hgap'

theorem take (h : p.Rebased t p') : p.take.2.Rebased t p'.take.2 where
  base_eq := h.base_eq
  base_eq' := h.base_eq'
  live := insertReg_rebased h.leastFree h.live

theorem release (h : p.Rebased t p') (hr : r.Rebased t r') :
    (p.release r).Rebased t (p'.release r') where
  base_eq := h.base_eq
  base_eq' := h.base_eq'
  live := by
    refine List.rel_filter ?_ h.live
    intro s s' hs
    show decide (s ≠ r) = true ↔ decide (s' ≠ r') = true
    rw [decide_eq_true_iff, decide_eq_true_iff]
    exact not_congr (hs.rebased.eq_iff hr)

theorem reserves_iff (h : p.Rebased t p') (hr : r.Rebased t r') :
    p.Reserves r ↔ p'.Reserves r' := by
  have hlive := h.live.imp fun _ _ h => Reg.SameTemporary.rebased h
  rw [Reserves, Reserves, h.base_eq, h.base_eq', hr.le_iff, hr.mem_iff hlive]

end Pool.Rebased

/-! ## Builders -/

/-- Calls of the same routine on registers that correspond. -/
inductive Call.Rebased (t : Rebasing) : Call Reg → Call Reg → Prop where
  | move {a a' b b' : Reg} (ha : a.Rebased t a') (hb : b.Rebased t b') :
    Rebased t (.move a b) (.move a' b')
  | copy {a a' b b' : Reg} (ha : a.Rebased t a') (hb : b.Rebased t b') :
    Rebased t (.copy a b) (.copy a' b')
  | clear {a a' : Reg} (ha : a.Rebased t a') : Rebased t (.clear a) (.clear a')
  | swap {a a' b b' : Reg} (ha : a.Rebased t a') (hb : b.Rebased t b') :
    Rebased t (.swap a b) (.swap a' b')
  | reverse {a a' b b' : Reg} (ha : a.Rebased t a') (hb : b.Rebased t b') :
    Rebased t (.reverse a b) (.reverse a' b')

/-- The number of operands decides whether there is a call. -/
theorem Routine.call?_rebased (r : Routine) {regs regs' : List Reg}
    (h : List.Forall₂ (Reg.Rebased t) regs regs') :
    Option.Rel (Call.Rebased t) (r.call? regs) (r.call? regs') := by
  rcases h with _ | ⟨ha, _ | ⟨hb, _ | ⟨_, _⟩⟩⟩
  · cases r <;> exact .none
  · cases r
    case clear => exact .some (.clear ha)
    all_goals exact .none
  · cases r
    case move => exact .some (.move ha hb)
    case copy => exact .some (.copy ha hb)
    case clear => exact .none
    case swap => exact .some (.swap ha hb)
    case reverse => exact .some (.reverse ha hb)
  · cases r <;> exact .none

/-- Instructions that differ in their registers, or in the registers of a call that a comment
names. -/
inductive Instruction.Rebased (t : Rebasing) : Instruction → Instruction → Prop where
  | write (s : Symbol) {r r' : Reg} (h : r.Rebased t r') : Rebased t (.write s r) (.write s r')
  | case {r r' : Reg} (h : r.Rebased t r') : Rebased t (.case r) (.case r')
  | setLabel (l : Label) : Rebased t (.setLabel l) (.setLabel l)
  | jump (l : Label) : Rebased t (.jump l) (.jump l)
  | comment (text : String) : Rebased t (.comment text) (.comment text)
  | header {c c' : Call Reg} (h : c.Rebased t c') :
    Rebased t (.comment c.header) (.comment c'.header)
  | nop : Rebased t .nop .nop

/-- The same error, over registers that correspond. -/
inductive BuildError.Rebased (t : Rebasing) : BuildError → BuildError → Prop where
  | duplicateLabel (l : Label) : Rebased t (.duplicateLabel l) (.duplicateLabel l)
  | zeroRegister : Rebased t .zeroRegister .zeroRegister
  | aliased {r r' : Reg} (h : r.Rebased t r') : Rebased t (.aliased r) (.aliased r')
  | reserved {r r' : Reg} (h : r.Rebased t r') : Rebased t (.reserved r) (.reserved r')
  | arity (r : Routine) (found : Nat) : Rebased t (.arity r found) (.arity r found)

/-- Builders in the same state, but for the temporaries. -/
structure Builder.Rebased (t : Rebasing) (b b' : Builder) : Prop where
  code : List.Forall₂ (Instruction.Rebased t) b.code.toList b'.code.toList
  nextLabel : b.nextLabel = b'.nextLabel
  defined : b.defined = b'.defined
  pool : b.pool.Rebased t b'.pool
  guarded : b.guarded = b'.guarded

namespace Builder.Rebased

variable {b b' : Builder} {r r' : Reg}

theorem startingAt (t : Rebasing) :
    (Builder.startingAt t.old).Rebased t (Builder.startingAt t.new) where
  code := .nil
  nextLabel := rfl
  defined := rfl
  pool := .startingAt t
  guarded := rfl

theorem append (h : b.Rebased t b') {i i' : Instruction} (hi : i.Rebased t i') :
    (b.append i).Rebased t (b'.append i') where
  code := by
    rw [Builder.append, Builder.append, Array.toList_push, Array.toList_push]
    exact List.rel_append h.code (.cons hi .nil)
  nextLabel := h.nextLabel
  defined := h.defined
  pool := h.pool
  guarded := h.guarded

theorem size_eq (h : b.Rebased t b') : b.code.size = b'.code.size := by
  rw [← Array.length_toList, ← Array.length_toList]
  exact h.code.length_eq

/-- A check refuses the same registers, for the same reason. -/
theorem check (h : b.Rebased t b') (hr : r.Rebased t r') :
    Alike (BuildError.Rebased t) Eq (b.check r) (b'.check r') := by
  simp only [Builder.check, hr.zero_iff, h.guarded, h.pool.reserves_iff hr]
  split
  · exact .error .zeroRegister
  · split
    · exact .error (.reserved hr)
    · exact .ok rfl

end Builder.Rebased

/-! ## Building steps -/

namespace Build

variable {σ α α' β β' : Type}

/-- Started with `S` between the clients' states, on builders that correspond, two building steps
end so, with the same result but for `R`. -/
def Rebased (t : Rebasing) (S : σ → σ → Prop) (R : α → α' → Prop) (x : Build σ α)
    (x' : Build σ α') : Prop :=
  ∀ b b' s s', b.Rebased t b' → S s s' →
    ∃ result result' c c' u u', x.perform b s = (result, c, u) ∧
      x'.perform b' s' = (result', c', u') ∧
      Alike (BuildError.Rebased t) R result result' ∧ c.Rebased t c' ∧ S u u'

namespace Rebased

variable {S : σ → σ → Prop} {R : α → α' → Prop} {Q : β → β' → Prop} {x : Build σ α}
  {x' : Build σ α'}

theorem bind {f : α → Build σ β} {f' : α' → Build σ β'} (hx : Rebased t S R x x')
    (hf : ∀ a a', R a a' → Rebased t S Q (f a) (f' a')) : Rebased t S Q (x >>= f) (x' >>= f') := by
  intro b b' s s' hb hs
  obtain ⟨result, result', c, c', u, u', hperform, hperform', hresult, hc, hu⟩ := hx b b' s s' hb hs
  rw [perform_bind, perform_bind, hperform, hperform']
  cases hresult with
  | ok ha => exact hf _ _ ha c c' u u' hc hu
  | error he => exact ⟨_, _, c, c', u, u', rfl, rfl, .error he, hc, hu⟩

/-- After the same value, the same goes on. -/
theorem bind_eq {y y' : Build σ α} {f f' : α → Build σ β} {Q : β → β → Prop}
    (hy : Rebased t S Eq y y') (hf : ∀ a, Rebased t S Q (f a) (f' a)) :
    Rebased t S Q (y >>= f) (y' >>= f') := by
  refine bind hy fun a a' ha => ?_
  subst ha
  exact hf a

theorem pure {a : α} {a' : α'} (h : R a a') :
    Rebased t S R (Pure.pure a : Build σ α) (Pure.pure a') :=
  fun b b' s s' hb hs => ⟨_, _, b, b', s, s', rfl, rfl, .ok h, hb, hs⟩

theorem throw {e e' : BuildError} (h : e.Rebased t e') :
    Rebased t S R (MonadExcept.throw e : Build σ α) (MonadExcept.throw e' : Build σ α') :=
  fun b b' s s' hb hs => ⟨_, _, b, b', s, s', rfl, rfl, .error h, hb, hs⟩

theorem attempt (h : Rebased t S R x x') :
    Rebased t S (Alike (BuildError.Rebased t) R) (Build.attempt x) (Build.attempt x') := by
  intro b b' s s' hb hs
  obtain ⟨result, result', c, c', u, u', hperform, hperform', hresult, hc, hu⟩ := h b b' s s' hb hs
  refine ⟨_, _, c, c', u, u', ?_, ?_, .ok hresult, hc, hu⟩
  · rw [perform_attempt, hperform]
  · rw [perform_attempt, hperform']

theorem ofExcept {result : Except BuildError α} {result' : Except BuildError α'}
    (h : Alike (BuildError.Rebased t) R result result') :
    Rebased t S R (Build.ofExcept result : Build σ α) (Build.ofExcept result') :=
  fun b b' s s' hb hs =>
    ⟨_, _, b, b', s, s', perform_ofExcept b s result, perform_ofExcept b' s' result', h, hb, hs⟩

/-- A step that changes the builder only. -/
theorem modify {f f' : Builder → Builder} (h : ∀ b b', b.Rebased t b' → (f b).Rebased t (f' b')) :
    Rebased t S Eq (modify f : Build σ Unit) (modify f') :=
  fun b b' s s' hb hs => ⟨_, _, f b, f' b', s, s', rfl, rfl, .ok rfl, h b b' hb, hs⟩

theorem emit {i i' : Instruction} (h : i.Rebased t i') :
    Rebased t S Eq (Build.emit i : Build σ Unit) (Build.emit i') :=
  modify fun _ _ hb => hb.append h

theorem jump (l : Label) : Rebased t S Eq (Build.jump l : Build σ Unit) (Build.jump l) :=
  emit (.jump l)

theorem freshLabel (hint : String) :
    Rebased t S Eq (Build.freshLabel hint : Build σ Label) (Build.freshLabel hint) := by
  intro b b' s s' hb hs
  refine ⟨_, _, _, _, s, s', rfl, rfl, .ok (congrArg _ hb.nextLabel), ?_, hs⟩
  exact { hb with nextLabel := congrArg (· + 1) hb.nextLabel }

theorem define (l : Label) : Rebased t S Eq (Build.define l : Build σ Unit) (Build.define l) := by
  intro b b' s s' hb hs
  rw [perform_define, perform_define, hb.defined]
  split
  · exact ⟨_, _, b, b', s, s', rfl, rfl, .error (.duplicateLabel l), hb, hs⟩
  · refine ⟨_, _, _, _, s, s', rfl, rfl, .ok rfl, ?_, hs⟩
    have hdefined : { b with defined := l :: b'.defined : Builder }.Rebased t
        { b' with defined := l :: b'.defined } := { hb with defined := rfl }
    exact hdefined.append (.setLabel l)

theorem check {r r' : Reg} (hr : r.Rebased t r') :
    Rebased t S Eq (Build.check r : Build σ Unit) (Build.check r') :=
  fun b b' s s' hb hs => ⟨_, _, b, b', s, s', perform_check b s r, perform_check b' s' r',
    hb.check hr, hb, hs⟩

theorem write (symbol : Symbol) {r r' : Reg} (hr : r.Rebased t r') :
    Rebased t S Eq (Build.write symbol r : Build σ Unit) (Build.write symbol r') :=
  bind (check hr) fun _ _ _ => emit (.write symbol hr)

theorem case {r r' : Reg} (hr : r.Rebased t r') :
    Rebased t S Eq (Build.case r : Build σ Unit) (Build.case r') :=
  bind (check hr) fun _ _ _ => emit (.case hr)

theorem allocTemp :
    Rebased t S (Reg.SameTemporary t) (Build.allocTemp : Build σ Reg) Build.allocTemp :=
  fun _ _ s s' hb hs =>
    ⟨_, _, _, _, s, s', rfl, rfl, .ok hb.pool.leastFree, { hb with pool := hb.pool.take }, hs⟩

theorem freeTemp {r r' : Reg} (hr : r.Rebased t r') :
    Rebased t S Eq (Build.freeTemp r : Build σ Unit) (Build.freeTemp r') :=
  modify fun _ _ hb => { hb with pool := hb.pool.release hr }

/-! ### Control structures -/

theorem block {body body' : Scope → Build σ Unit}
    (h : ∀ scope, Rebased t S Eq (body scope) (body' scope)) :
    Rebased t S Eq (Build.block body) (Build.block body') :=
  bind_eq (freshLabel _) fun _ => bind_eq (freshLabel _) fun _ => bind_eq (define _) fun _ =>
    bind_eq (h _) fun _ => define _

theorem cases {r r' : Reg} {empty empty' one one' hash hash' : Build σ Unit} (hr : r.Rebased t r')
    (hempty : Rebased t S Eq empty empty') (hone : Rebased t S Eq one one')
    (hhash : Rebased t S Eq hash hash') :
    Rebased t S Eq (Build.cases r empty one hash) (Build.cases r' empty' one' hash') :=
  bind_eq (freshLabel _) fun _ => bind_eq (freshLabel _) fun _ => bind_eq (freshLabel _) fun _ =>
    bind_eq (freshLabel _) fun _ => bind_eq (case hr) fun _ => bind_eq (jump _) fun _ =>
      bind_eq (jump _) fun _ => bind_eq (jump _) fun _ => bind_eq (jump _) fun _ =>
      bind_eq (define _) fun _ => bind_eq hempty fun _ => bind_eq (jump _) fun _ =>
      bind_eq (define _) fun _ => bind_eq hone fun _ => bind_eq (jump _) fun _ =>
      bind_eq (define _) fun _ => bind_eq hhash fun _ => define _

theorem loopOn {r r' : Reg} {one one' hash hash' : Scope → Build σ Unit} (hr : r.Rebased t r')
    (hone : ∀ scope, Rebased t S Eq (one scope) (one' scope))
    (hhash : ∀ scope, Rebased t S Eq (hash scope) (hash' scope)) :
    Rebased t S Eq (Build.loopOn r one hash) (Build.loopOn r' one' hash') :=
  block fun scope => cases hr (jump _) (bind_eq (hone scope) fun _ => jump _)
    (bind_eq (hhash scope) fun _ => jump _)

theorem repeatOn {r r' : Reg} {one one' hash hash' : Build σ Unit} (hr : r.Rebased t r')
    (hone : Rebased t S Eq one one') (hhash : Rebased t S Eq hash hash') :
    Rebased t S Eq (Build.repeatOn r one hash) (Build.repeatOn r' one' hash') :=
  loopOn hr (fun _ => hone) fun _ => hhash

theorem whileNonempty {r r' : Reg} {body body' : Build σ Unit} (hr : r.Rebased t r')
    (h : Rebased t S Eq body body') :
    Rebased t S Eq (Build.whileNonempty r body) (Build.whileNonempty r' body') :=
  block fun _ => bind_eq (cases hr (jump _) (pure rfl) (pure rfl)) fun _ =>
    bind_eq h fun _ => jump _

theorem withTemp {body body' : Reg → Build σ Unit}
    (h : ∀ temp temp', temp.SameTemporary t temp' → Rebased t S Eq (body temp) (body' temp')) :
    Rebased t S Eq (Build.withTemp body) (Build.withTemp body') :=
  bind allocTemp fun temp temp' htemp => bind (h temp temp' htemp).attempt fun _ _ hresult =>
    bind_eq (freeTemp htemp.rebased) fun _ => ofExcept hresult

/-! ### The library -/

theorem checkOperands {regs regs' : List Reg} (h : List.Forall₂ (Reg.Rebased t) regs regs') :
    Rebased t S Eq (Build.checkOperands regs : Build σ Unit) (Build.checkOperands regs') := by
  induction h with
  | nil => exact pure rfl
  | cons hr hrest ih =>
    refine bind_eq (check hr) fun _ => ?_
    simp only [hr.mem_iff hrest]
    split
    · exact bind_eq (throw (.aliased hr)) fun _ => ih
    · exact ih

section Routines

variable {source source' target target' : Reg} (hs : source.Rebased t source')
  (ht : target.Rebased t target')

include hs in
theorem clear : Rebased t S Eq (Build.clear source : Build σ Unit) (Build.clear source') :=
  bind_eq (checkOperands (.cons hs .nil)) fun _ => whileNonempty hs (pure rfl)

include hs ht

theorem move :
    Rebased t S Eq (Build.move source target : Build σ Unit) (Build.move source' target') :=
  bind_eq (checkOperands (.cons hs (.cons ht .nil))) fun _ =>
    repeatOn hs (write _ ht) (write _ ht)

theorem copy :
    Rebased t S Eq (Build.copy source target : Build σ Unit) (Build.copy source' target') :=
  bind_eq (checkOperands (.cons hs (.cons ht .nil))) fun _ => withTemp fun _ _ htemp =>
    bind_eq (repeatOn hs (bind_eq (write _ ht) fun _ => write _ htemp.rebased)
      (bind_eq (write _ ht) fun _ => write _ htemp.rebased)) fun _ => move htemp.rebased hs

theorem swap :
    Rebased t S Eq (Build.swap source target : Build σ Unit) (Build.swap source' target') :=
  bind_eq (checkOperands (.cons hs (.cons ht .nil))) fun _ => withTemp fun _ _ htemp =>
    bind_eq (move hs htemp.rebased) fun _ => bind_eq (move ht hs) fun _ => move htemp.rebased ht

omit hs in
theorem prepend (symbol : Symbol) :
    Rebased t S Eq (Build.prepend symbol target : Build σ Unit) (Build.prepend symbol target') :=
  withTemp fun _ _ htemp => bind_eq (write _ htemp.rebased) fun _ =>
    bind_eq (move ht htemp.rebased) fun _ => move htemp.rebased ht

theorem reverse :
    Rebased t S Eq (Build.reverse source target : Build σ Unit) (Build.reverse source' target') :=
  bind_eq (checkOperands (.cons hs (.cons ht .nil))) fun _ =>
    repeatOn hs (prepend ht _) (prepend ht _)

end Routines

theorem call {c c' : Call Reg} (h : c.Rebased t c') :
    Rebased t S Eq (Build.call c : Build σ Unit) (Build.call c') := by
  cases h with
  | move ha hb => exact move ha hb
  | copy ha hb => exact copy ha hb
  | clear ha => exact clear ha
  | swap ha hb => exact swap ha hb
  | reverse ha hb => exact reverse ha hb

theorem routine (r : Routine) {regs regs' : List Reg}
    (h : List.Forall₂ (Reg.Rebased t) regs regs') :
    Rebased t S Eq (Build.routine r regs : Build σ Unit) (Build.routine r regs') := by
  have hcall := r.call?_rebased h
  unfold Build.routine
  generalize r.call? regs = call, r.call? regs' = call' at hcall
  cases hcall with
  | none =>
    rw [h.length_eq]
    exact throw (.arity r _)
  | some hc => exact bind_eq (emit (.header hc)) fun _ => Rebased.call hc

end Rebased

end Build

end TextMachine
