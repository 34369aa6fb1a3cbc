import TextMachine.Proofs.Build.Recipes
import TextMachine.Proofs.Resolution.Errors
import Mathlib.Data.List.Chain

/-!
# Histories of builders

A recipe takes a builder through a *history*: the builder at the beginning, and then what each of
its operations leaves (`Recipe.states`). Operations that append nothing unchecked do one of six
things to a builder (`Builder.Advances`), so a history is a chain of these
(`Recipe.isChain_states`), and what the six keep holds all along it, also where a body was left in
the middle and the failure passed on or caught.

The labels defined in the stream are those that the builder knows of, each of them once
(`Builder.LabelsAgree`), and every register in the stream passed the check at the moment when its
instruction was appended. This is what the resolution of the stream asks for, apart from the jumps.
-/

namespace TextMachine

/-- The register that an instruction uses, if it uses one. -/
def Instruction.reg? : Instruction → Option Reg
  | write _ r => some r
  | case r => some r
  | _ => none

/-! ## Operations that check what they append -/

/-- Nothing is appended unchecked that defines a label or uses a register. -/
def Primitive.Checked {α : Type} : Primitive α → Prop
  | emit i => i.definedLabel? = none ∧ i.reg? = none
  | _ => True

namespace Recipe

variable {σ : Type}

/-- All operations of a recipe check what they append, whatever came before them. -/
def Checked {α : Type} : Recipe σ α → Prop
  | .bind x f => x.Checked ∧ ∀ a, (f a).Checked
  | .attempt x => x.Checked
  | .body x => x.Checked
  | .operation op => op.Checked
  | _ => True

namespace Checked

theorem bind {α β : Type} {x : Recipe σ α} {f : α → Recipe σ β} (hx : x.Checked)
    (hf : ∀ a, (f a).Checked) : (x >>= f).Checked :=
  ⟨hx, hf⟩

theorem jump (l : Label) : (Recipe.jump l : Recipe σ Unit).Checked :=
  ⟨rfl, rfl⟩

theorem block {inside : Scope → Recipe σ Unit} (h : ∀ scope, (inside scope).Checked) :
    (Recipe.block inside).Checked :=
  bind trivial fun _ => bind trivial fun _ => bind trivial fun _ => bind (h _) fun _ => trivial

theorem cases {r : Reg} {empty one hash : Recipe σ Unit} (hempty : empty.Checked)
    (hone : one.Checked) (hhash : hash.Checked) : (Recipe.cases r empty one hash).Checked :=
  bind trivial fun _ => bind trivial fun _ => bind trivial fun _ => bind trivial fun _ =>
    bind trivial fun _ => bind (jump _) fun _ => bind (jump _) fun _ => bind (jump _) fun _ =>
      bind (jump _) fun _ =>
        bind trivial fun _ => bind hempty fun _ => bind (jump _) fun _ =>
        bind trivial fun _ => bind hone fun _ => bind (jump _) fun _ =>
        bind trivial fun _ => bind hhash fun _ => trivial

theorem loopOn {r : Reg} {one hash : Scope → Recipe σ Unit} (hone : ∀ scope, (one scope).Checked)
    (hhash : ∀ scope, (hash scope).Checked) : (Recipe.loopOn r one hash).Checked :=
  block fun scope => cases (jump _) (bind (hone scope) fun _ => jump _)
    (bind (hhash scope) fun _ => jump _)

theorem repeatOn {r : Reg} {one hash : Recipe σ Unit} (hone : one.Checked) (hhash : hash.Checked) :
    (Recipe.repeatOn r one hash).Checked :=
  loopOn (fun _ => hone) fun _ => hhash

theorem whileNonempty {r : Reg} {inside : Recipe σ Unit} (h : inside.Checked) :
    (Recipe.whileNonempty r inside).Checked :=
  block fun _ => bind (cases (jump _) trivial trivial) fun _ => bind h fun _ => jump _

theorem ofExcept {α : Type} (result : Except BuildError α) :
    (Recipe.ofExcept result : Recipe σ α).Checked := by
  cases result <;> trivial

theorem withTemp {inside : Reg → Recipe σ Unit} (h : ∀ temp, (inside temp).Checked) :
    (Recipe.withTemp inside).Checked :=
  bind trivial fun temp => bind (h temp) fun outcome => bind trivial fun _ => ofExcept outcome

theorem checkOperands (regs : List Reg) :
    (Recipe.checkOperands regs : Recipe σ Unit).Checked := by
  induction regs with
  | nil => trivial
  | cons r rest ih =>
    refine bind trivial fun _ => ?_
    split
    · exact bind trivial fun _ => ih
    · exact ih

end Checked

end Recipe

theorem Structured.checked_recipe {σ : Type} {n : Nat} (p : Structured n) (scopes : Fin n → Scope) :
    (p.recipe scopes : Recipe σ Unit).Checked := by
  induction p with
  | write symbol r => trivial
  | comment text => exact ⟨rfl, rfl⟩
  | nop => exact ⟨rfl, rfl⟩
  | operands regs => exact .checkOperands regs
  | seq p q ihp ihq => exact .bind (ihp scopes) fun _ => ihq scopes
  | restart k => exact .jump _
  | exit k => exact .jump _
  | cases r empty one hash ihe iho ihh => exact .cases (ihe scopes) (iho scopes) (ihh scopes)
  | block inside ih => exact .block fun _ => ih _
  | loopOn r one hash iho ihh => exact .loopOn (fun _ => iho _) fun _ => ihh _
  | repeatOn r one hash iho ihh => exact .repeatOn (iho scopes) (ihh scopes)
  | whileNonempty r inside ih => exact .whileNonempty (ih scopes)
  | withTemp inside ih => exact .withTemp fun temp => ih temp scopes

theorem Recipe.Checked.call {σ : Type} (c : Call Reg) :
    (Recipe.call c : Recipe σ Unit).Checked :=
  (Structured.call c).checked_recipe Fin.elim0

theorem Recipe.Checked.routine {σ : Type} (r : Routine) (regs : List Reg) :
    (Recipe.routine r regs : Recipe σ Unit).Checked := by
  unfold Recipe.routine
  split
  · trivial
  next c _ => exact bind ⟨rfl, rfl⟩ fun _ => call c

/-! ## What operations do to a builder -/

namespace Builder

/-- What becomes of a builder in one operation. -/
inductive Advances (b : Builder) : Builder → Prop where
  | stay : Advances b b
  | label : Advances b { b with nextLabel := b.nextLabel + 1 }
  | define (l : Label) (h : l ∉ b.defined) :
    Advances b ({ b with defined := l :: b.defined }.append (.setLabel l))
  | append (i : Instruction) (hlabel : i.definedLabel? = none)
    (hreg : ∀ r, i.reg? = some r → b.check r = .ok ()) : Advances b (b.append i)
  | take : Advances b { b with pool := b.pool.take.2 }
  | release (r : Reg) : Advances b { b with pool := b.pool.release r }

/-- An instruction with a register is only appended after the check. -/
theorem advances_checked {σ : Type} (b : Builder) (s : σ) {i : Instruction} {r : Reg}
    (hr : i.reg? = some r) (hi : i.definedLabel? = none) :
    b.Advances (match b.check r with
      | .ok () => (.ok (), b.append i, s)
      | .error e => (.error e, b, s) : Except BuildError Unit × Builder × σ).2.1 := by
  cases hcheck : b.check r with
  | error e => exact .stay
  | ok u =>
    apply Builder.Advances.append i hi
    intro r' hr'
    obtain rfl := Option.some.inj (hr.symm.trans hr')
    exact hcheck

end Builder

theorem Primitive.advances {σ α : Type} {op : Primitive α} (h : op.Checked) (b : Builder) (s : σ) :
    b.Advances (op.build.perform b s).2.1 := by
  cases op with
  | check r =>
    rw [build, Build.perform_check]
    exact .stay
  | freshLabel hint => exact .label
  | define l =>
    rw [build, Build.perform_define]
    split
    · exact .stay
    next hnew => exact .define l hnew
  | emit i =>
    apply Builder.Advances.append i h.1
    rw [h.2]
    rintro r ⟨⟩
  | write symbol r =>
    rw [build, Build.perform_write]
    exact b.advances_checked s rfl rfl
  | case r =>
    rw [build, Build.perform_case]
    exact b.advances_checked s rfl rfl
  | allocTemp => exact .take
  | freeTemp r => exact .release r

/-- The history of a recipe is a chain of operations, and ends with the builder that it leaves. -/
theorem Recipe.isChain_states {σ α : Type} {p : Recipe σ α} (h : p.Checked) (b : Builder) (s : σ) :
    List.IsChain Builder.Advances (b :: p.states b s) ∧
      (b :: p.states b s).getLast? = some (p.build.perform b s).2.1 := by
  induction p generalizing b s with
  | pure a => exact ⟨.singleton b, rfl⟩
  | throw e => exact ⟨.singleton b, rfl⟩
  | bind x f ihx ihf =>
    obtain ⟨hchain, hlast⟩ := ihx h.1 b s
    simp only [states, build, Build.perform_bind]
    rcases hx : x.build.perform b s with ⟨e | a, b₁, s₁⟩
    · rw [hx] at hlast
      rw [List.append_nil]
      exact ⟨hchain, hlast⟩
    · rw [hx] at hlast
      obtain ⟨hchain', hlast'⟩ := ihf a (h.2 a) b₁ s₁
      refine ⟨?_, ?_⟩
      · -- the second part goes on from the last builder of the first
        show List.IsChain Builder.Advances ((b :: x.states b s) ++ (f a).states b₁ s₁)
        apply hchain.append hchain'.tail
        intro last hmem
        obtain rfl : b₁ = last := Option.some.inj (hlast.symm.trans hmem)
        exact (List.isChain_cons.1 hchain').1
      · show ((b :: x.states b s) ++ (f a).states b₁ s₁).getLast? = _
        rw [List.getLast?_append, hlast, ← hlast', List.getLast?_cons]
        cases ((f a).states b₁ s₁).getLast? <;> rfl
  | attempt x ih => exact ih h b s
  | body x ih => exact ih h b s
  | getClient => exact ⟨.singleton b, rfl⟩
  | modifyClient f => exact ⟨.singleton b, rfl⟩
  | getBuilder => exact ⟨.singleton b, rfl⟩
  | operation op => exact ⟨.cons_cons (Primitive.advances h b s) (.singleton _), rfl⟩

/-! ## What holds all along a history -/

namespace Builder

/-- The labels that a builder knows to be defined are those defined in its stream, and none of them
is defined there twice. -/
def LabelsAgree (b : Builder) : Prop :=
  (definedLabels b.code.toList).Nodup ∧ ∀ l, l ∈ b.defined ↔ l ∈ definedLabels b.code.toList

theorem labelsAgree_startingAt (base : Nat) : (startingAt base).LabelsAgree :=
  ⟨.nil, fun _ => Iff.rfl⟩

theorem definedLabels_append (b : Builder) (i : Instruction) :
    definedLabels (b.append i).code.toList =
      definedLabels b.code.toList ++ i.definedLabel?.toList := by
  rw [append, Array.toList_push, TextMachine.definedLabels_append, definedLabels_cons]
  simp

theorem LabelsAgree.advances {b b' : Builder} (h : b.LabelsAgree) (hstep : b.Advances b') :
    b'.LabelsAgree := by
  obtain ⟨hnodup, hmem⟩ := h
  cases hstep with
  | stay => exact ⟨hnodup, hmem⟩
  | label => exact ⟨hnodup, hmem⟩
  | take => exact ⟨hnodup, hmem⟩
  | release r => exact ⟨hnodup, hmem⟩
  | define l hnew =>
    refine ⟨?_, fun l' => ?_⟩
    · rw [definedLabels_append]
      show (definedLabels b.code.toList ++ [l]).Nodup
      rw [List.nodup_append]
      refine ⟨hnodup, List.nodup_singleton l, ?_⟩
      rintro _ hold _ hl rfl
      obtain rfl := List.mem_singleton.1 hl
      exact hnew ((hmem _).2 hold)
    · rw [definedLabels_append]
      show l' ∈ l :: b.defined ↔ l' ∈ definedLabels b.code.toList ++ [l]
      rw [List.mem_cons, List.mem_append, List.mem_singleton, hmem]
      exact or_comm
  | append i hlabel hreg =>
    rw [LabelsAgree, definedLabels_append, hlabel]
    simp only [Option.toList_none, List.append_nil]
    exact ⟨hnodup, hmem⟩

/-- What the check of a register says when it is passed. -/
theorem of_check_eq_ok {b : Builder} {r : Reg} (hguard : b.guarded = true)
    (h : b.check r = .ok ()) : r.index ≠ 0 ∧ (b.pool.base ≤ r.index → r ∈ b.pool.live) := by
  unfold check at h
  split at h
  · cases h
  next hzero =>
    split at h
    · cases h
    next hfree =>
      refine ⟨hzero, fun hle => ?_⟩
      refine Decidable.not_not.1 fun hnot => hfree ⟨hguard, hle, hnot⟩

/-- Before moment `k` of a history there was one at which `instr` was appended, at index `i` of the
stream, and the temporary `r` was in use. -/
def AppendedWhileLive (history : List Builder) (k i : Nat) (instr : Instruction) (r : Reg) : Prop :=
  ∃ j before after, j < k ∧ history[j]? = some before ∧ history[j + 1]? = some after ∧
    before.code.size = i ∧ after.code = before.code.push instr ∧ r ∈ before.pool.live

/-- What holds of the builder at a moment of a history, where temporaries start at `base`. -/
structure Recorded (base : Nat) (history : List Builder) (k : Nat) (b : Builder) : Prop where
  guarded : b.guarded = true
  base_eq : b.pool.base = base
  le_live : ∀ r ∈ b.pool.live, base ≤ r.index
  labels : b.LabelsAgree
  registers : ∀ i instr r, b.code[i]? = some instr → instr.reg? = some r →
    r.index ≠ 0 ∧ (base ≤ r.index → AppendedWhileLive history k i instr r)

theorem recorded_startingAt (base : Nat) (history : List Builder) :
    Recorded (max base 1) history 0 (startingAt base) where
  guarded := rfl
  base_eq := rfl
  le_live := nofun
  labels := labelsAgree_startingAt base
  registers i instr r hi := by
    rw [startingAt, Array.getElem?_empty] at hi
    cases hi

namespace Recorded

variable {base k : Nat} {history : List Builder} {b b' : Builder}

theorem registers_succ (h : Recorded base history k b) (i : Nat) (instr : Instruction) (r : Reg)
    (hi : b.code[i]? = some instr) (hr : instr.reg? = some r) :
    r.index ≠ 0 ∧ (base ≤ r.index → AppendedWhileLive history (k + 1) i instr r) := by
  obtain ⟨hzero, happended⟩ := h.registers i instr r hi hr
  refine ⟨hzero, fun hle => ?_⟩
  obtain ⟨j, before, after, hjk, hrest⟩ := happended hle
  exact ⟨j, before, after, Nat.lt_succ_of_lt hjk, hrest⟩

/-- The registers of the stream after one more instruction: those that were there, and the one of
the new instruction, which has just passed the check. -/
theorem registers_push (h : Recorded base history k b) (hb : history[k]? = some b)
    (hb' : history[k + 1]? = some b') {new : Instruction} (hcode : b'.code = b.code.push new)
    (hnew : ∀ r, new.reg? = some r → b.check r = .ok ()) (i : Nat) (instr : Instruction) (r : Reg)
    (hi : b'.code[i]? = some instr) (hr : instr.reg? = some r) :
    r.index ≠ 0 ∧ (base ≤ r.index → AppendedWhileLive history (k + 1) i instr r) := by
  rw [hcode, Array.getElem?_push] at hi
  split at hi
  next hsize =>
    obtain rfl := Option.some.inj hi
    obtain ⟨hzero, hlive⟩ := of_check_eq_ok h.guarded (hnew r hr)
    rw [h.base_eq] at hlive
    exact ⟨hzero, fun hle => ⟨k, b, b', Nat.lt_succ_self k, hb, hb', hsize.symm, hcode, hlive hle⟩⟩
  next => exact h.registers_succ i instr r hi hr

theorem advances (h : Recorded base history k b) (hb : history[k]? = some b)
    (hb' : history[k + 1]? = some b') (hstep : b.Advances b') :
    Recorded base history (k + 1) b' where
  guarded := by cases hstep <;> exact h.guarded
  base_eq := by cases hstep <;> exact h.base_eq
  labels := h.labels.advances hstep
  le_live := by
    intro r hr
    cases hstep with
    | take =>
      rcases mem_insertReg.1 hr with rfl | hr
      · have hle : b.pool.base ≤ b.pool.leastFree.index := le_firstGap b.pool.base b.pool.live
        rwa [h.base_eq] at hle
      · exact h.le_live r hr
    | release => exact h.le_live r (List.mem_filter.1 hr).1
    | stay => exact h.le_live r hr
    | label => exact h.le_live r hr
    | define => exact h.le_live r hr
    | append => exact h.le_live r hr
  registers := by
    cases hstep with
    | define l hnew => exact h.registers_push hb hb' rfl nofun
    | append i hlabel hreg => exact h.registers_push hb hb' rfl hreg
    | stay => exact h.registers_succ
    | label => exact h.registers_succ
    | take => exact h.registers_succ
    | release => exact h.registers_succ

end Recorded

/-- Whatever holds of a builder that is recorded holds at every moment of a history. -/
theorem recorded_of_isChain {base : Nat} {history : List Builder}
    (hchain : List.IsChain Advances history) (hstart : history[0]? = some (startingAt base))
    {k : Nat} {b : Builder} (hk : history[k]? = some b) : Recorded (max base 1) history k b := by
  induction k generalizing b with
  | zero =>
    obtain rfl := Option.some.inj (hstart.symm.trans hk)
    exact recorded_startingAt base history
  | succ k ih =>
    obtain ⟨hlt, rfl⟩ := List.getElem?_eq_some_iff.1 hk
    have hprev : history[k]? = some history[k] := List.getElem?_eq_getElem _
    exact (ih hprev).advances hprev hk (hchain.getElem k hlt)

end Builder

theorem Recipe.labelsAgree {σ α : Type} {p : Recipe σ α} (h : p.Checked) (base : Nat) (s : σ) :
    (p.build.perform (.startingAt base) s).2.1.LabelsAgree := by
  obtain ⟨hchain, hlast⟩ := isChain_states h (.startingAt base) s
  obtain ⟨k, hk⟩ := List.mem_iff_getElem?.1 (List.mem_of_getLast? hlast)
  exact (Builder.recorded_of_isChain hchain rfl hk).labels

/-- A stream whose labels are defined once and whose registers exist fails to resolve because of a
jump only. -/
theorem resolve_eq_ok_or_jump {code : List Instruction} (hnodup : (definedLabels code).Nodup)
    (hregs : ∀ instr ∈ code, ∀ r, instr.reg? = some r → r.index ≠ 0) :
    (∃ program, resolve code = .ok program) ∨ (∃ l, resolve code = .error (.unresolvedLabel l)) ∨
      ∃ l, resolve code = .error (.selfJump l) := by
  cases hresolve : resolve code with
  | ok program => exact .inl ⟨program, rfl⟩
  | error e =>
    rw [resolve_eq_error_iff hnodup, resolveOps_eq_error_iff] at hresolve
    obtain ⟨j, i, hj, hfails, -⟩ := hresolve
    have hexists := hregs i (List.mem_of_getElem? hj)
    cases i with
    | write symbol r => exact absurd hfails.1 (hexists r rfl)
    | case r => exact absurd hfails.1 (hexists r rfl)
    | jump l =>
      rcases hfails with ⟨-, rfl⟩ | ⟨-, rfl⟩
      · exact .inr (.inl ⟨l, rfl⟩)
      · exact .inr (.inr ⟨l, rfl⟩)
    | setLabel l => exact hfails.elim
    | comment text => exact hfails.elim
    | nop => exact hfails.elim

/-- The invariant of sessions. Operations on a builder, one after another, with control structures
and routines among them, and failures passed on or caught anywhere, take it through a history that
ends with the builder they leave. At every moment of it the labels defined in the stream are
pairwise different, and are those that the builder holds for defined; every register in the stream
exists, and if it lies where temporaries do it was in use as one when its instruction was appended;
and all temporaries in use lie there. So the stream resolves, or fails to because of a jump, to a
label that is not defined or to its own position. -/
theorem invariant_of_histories {σ α : Type} (p : Recipe σ α) (hchecked : p.Checked) (base : Nat)
    (s : σ) :
    let history := Builder.startingAt base :: p.states (.startingAt base) s
    history.getLast? = some (p.build.perform (.startingAt base) s).2.1 ∧
    ∀ k b, history[k]? = some b →
      (definedLabels b.code.toList).Nodup ∧
      (∀ l, l ∈ b.defined ↔ l ∈ definedLabels b.code.toList) ∧
      (∀ i instr r, b.code[i]? = some instr → instr.reg? = some r →
        r.index ≠ 0 ∧ (max base 1 ≤ r.index → Builder.AppendedWhileLive history k i instr r)) ∧
      (∀ r ∈ b.pool.live, max base 1 ≤ r.index) ∧
      ((∃ program, resolve b.code.toList = .ok program) ∨
        (∃ l, resolve b.code.toList = .error (.unresolvedLabel l)) ∨
        ∃ l, resolve b.code.toList = .error (.selfJump l)) := by
  intro history
  obtain ⟨hchain, hlast⟩ := Recipe.isChain_states hchecked (.startingAt base) s
  refine ⟨hlast, fun k b hk => ?_⟩
  have hrecorded := Builder.recorded_of_isChain hchain rfl hk
  refine ⟨hrecorded.labels.1, hrecorded.labels.2, hrecorded.registers, hrecorded.le_live, ?_⟩
  apply resolve_eq_ok_or_jump hrecorded.labels.1
  intro instr hmem r hr
  obtain ⟨i, hi⟩ := List.mem_iff_getElem?.1 hmem
  rw [Array.getElem?_toList] at hi
  exact (hrecorded.registers i instr r hi hr).1

/-- A loop over register 1 with a temporary, whose second body fails; then the temporary is given
back, and a routine takes it again. -/
def Recipe.routineAfterFailure : Recipe Unit Unit := do
  let temp ← operation .allocTemp
  let _ ← attempt (loopOn ⟨1⟩ (fun _ => write .one temp) fun _ => write .hash ⟨0⟩)
  operation (.freeTemp temp)
  routine .copy [⟨1⟩, ⟨2⟩]

theorem invariant_of_histories_routineAfterFailure :
    let history := Builder.startingAt 1000 ::
      Recipe.routineAfterFailure.states (.startingAt 1000) ()
    Recipe.routineAfterFailure.Checked ∧
    (history[80]?.map fun b => (b.pool.live, b.code[10]?)) =
      some ([], some (.write .one ⟨1000⟩)) ∧
    Builder.AppendedWhileLive history 80 10 (.write .one ⟨1000⟩) ⟨1000⟩ := by
  intro history
  have hchecked : Recipe.routineAfterFailure.Checked :=
    .bind trivial fun temp => .bind (.loopOn (fun _ => trivial) fun _ => trivial) fun _ =>
      .bind trivial fun _ => .routine .copy [⟨1⟩, ⟨2⟩]
  have hend : (history[80]?.map fun b => (b.pool.live, b.code[10]?)) =
      some ([], some (.write .one ⟨1000⟩)) := by
    decide +kernel
  refine ⟨hchecked, hend, ?_⟩
  obtain ⟨b, hb, hcode⟩ := Option.map_eq_some_iff.1 hend
  obtain ⟨-, hmoments⟩ := invariant_of_histories _ hchecked 1000 ()
  obtain ⟨-, -, hregs, -⟩ := hmoments 80 b hb
  exact (hregs 10 _ ⟨1000⟩ (Prod.mk.inj hcode).2 rfl).2 (by decide)

end TextMachine
