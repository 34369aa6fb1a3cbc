import TextMachine.Proofs.Build.Histories
import TextMachine.Proofs.Machine.Rebasing
import TextMachine.Script.Run

/-!
# Scripts run twice, with different temporaries

A script that names no register by a number where temporaries may lie can use temporaries only
through its slots. Run on two builders whose temporaries start at different registers, it does the
same on both, step by step (`Step.rebased`, `Script.runFrom_rebased`): the notes that it keeps
correspond, and so do the builders.
-/

namespace TextMachine

variable {t : Rebasing}

/-! ## Registers that a script names -/

mutual

/-- The registers that a step names, at any depth. -/
def Step.registers : Step → List RegRef
  | .emit i => i.reg?.toList.map fun r => .number r.index
  | .write _ r => [r]
  | .case r => [r]
  | .check r => [r]
  | .free r => [r]
  | .block _ body => registersAll body
  | .cases r empty one hash =>
    r :: (registersAll empty ++ registersAll one ++ registersAll hash)
  | .loopOn r _ one hash => r :: (registersAll one ++ registersAll hash)
  | .repeatOn r one hash => r :: (registersAll one ++ registersAll hash)
  | .whileNonempty r body => r :: registersAll body
  | .withTemp _ body => registersAll body
  | .call c => c.operands
  | .routine _ operands => operands
  | .attempt body => registersAll body
  | _ => []

/-- The registers that the steps of a list name. -/
def registersAll : List Step → List RegRef
  | [] => []
  | step :: rest => step.registers ++ registersAll rest

end

/-- A register operand that is a slot, or a number below all temporaries of both runs. -/
def RegRef.Below (t : Rebasing) : RegRef → Prop
  | .number index => index < min t.old t.new
  | .slot _ => True

instance : DecidablePred (RegRef.Below t)
  | .number _ => inferInstanceAs (Decidable (_ < _))
  | .slot _ => inferInstanceAs (Decidable True)

/-! ## Notes -/

/-- The same values, with registers that correspond. -/
inductive Value.Rebased (t : Rebasing) : Value → Value → Prop where
  | label (l : Label) : Rebased t (.label l) (.label l)
  | checked {r r' : Reg} (h : r.Rebased t r') : Rebased t (.checked r) (.checked r')
  | temporary {r r' : Reg} (h : r.SameTemporary t r') : Rebased t (.temporary r) (.temporary r')
  | size (length : Nat) : Rebased t (.size length) (.size length)
  | isEmpty (answer : Bool) : Rebased t (.isEmpty answer) (.isEmpty answer)
  | outcome {result result' : Except BuildError Unit}
    (h : Alike (BuildError.Rebased t) Eq result result') :
    Rebased t (.outcome result) (.outcome result')

/-- Notes with registers that correspond. -/
structure Notes.Rebased (t : Rebasing) (n n' : Notes) : Prop where
  regs : List.Forall₂ (fun e e' => e.1 = e'.1 ∧ e.2.Rebased t e'.2) n.regs n'.regs
  labels : n.labels = n'.labels
  scopes : n.scopes = n'.scopes
  values : List.Forall₂ (Value.Rebased t) n.values.toList n'.values.toList

namespace Notes.Rebased

variable {n n' : Notes}

theorem tell (h : n.Rebased t n') {v v' : Value} (hv : v.Rebased t v') :
    (n.tell v).Rebased t (n'.tell v') where
  regs := h.regs
  labels := h.labels
  scopes := h.scopes
  values := by
    rw [Notes.tell, Notes.tell, Array.toList_push, Array.toList_push]
    exact List.rel_append h.values (.cons hv .nil)

theorem setReg (h : n.Rebased t n') (slot : String) {r r' : Reg} (hr : r.Rebased t r') :
    (n.setReg slot r).Rebased t (n'.setReg slot r') :=
  { h with regs := .cons ⟨rfl, hr⟩ h.regs }

theorem setLabel (h : n.Rebased t n') (slot : String) (l : Label) :
    (n.setLabel slot l).Rebased t (n'.setLabel slot l) :=
  { h with labels := congrArg ((slot, l) :: ·) h.labels }

theorem setScope (h : n.Rebased t n') (slot : String) (scope : Scope) :
    (n.setScope slot scope).Rebased t (n'.setScope slot scope) :=
  { h with
    labels := congrArg (fun labels => (slot ++ ".end", scope.finish) ::
      (slot ++ ".start", scope.start) :: labels) h.labels
    scopes := congrArg ((slot, scope) :: ·) h.scopes }

theorem lookup_regs {regs regs' : List (String × Reg)}
    (h : List.Forall₂ (fun e e' => e.1 = e'.1 ∧ e.2.Rebased t e'.2) regs regs') (name : String) :
    Option.Rel (Reg.Rebased t) (regs.lookup name) (regs'.lookup name) := by
  induction h with
  | nil => exact .none
  | @cons e e' _ _ he _ ih =>
    obtain ⟨slot, r⟩ := e
    obtain ⟨slot', r'⟩ := e'
    obtain ⟨rfl, hr⟩ := he
    rw [List.lookup_cons, List.lookup_cons]
    cases name == slot with
    | true => exact .some hr
    | false => exact ih

/-- An operand stands for registers that correspond. -/
theorem reg (h : n.Rebased t n') {r : RegRef} (hr : r.Below t) :
    (n.reg r).Rebased t (n'.reg r) := by
  cases r with
  | number index => exact Reg.rebased_of_lt hr
  | slot name =>
    have hslot := lookup_regs h.regs name
    show ((n.regs.lookup name).getD ⟨0⟩).Rebased t ((n'.regs.lookup name).getD ⟨0⟩)
    generalize n.regs.lookup name = found, n'.regs.lookup name = found' at hslot
    cases hslot with
    | none => exact Reg.rebased_of_lt (Nat.lt_min.2 ⟨t.old_pos, t.new_pos⟩)
    | some hr => exact hr

theorem map_reg (h : n.Rebased t n') {operands : List RegRef} (hr : ∀ r ∈ operands, r.Below t) :
    List.Forall₂ (Reg.Rebased t) (operands.map n.reg) (operands.map n'.reg) := by
  induction operands with
  | nil => exact .nil
  | cons r rest ih =>
    obtain ⟨hr, hrest⟩ := List.forall_mem_cons.1 hr
    exact .cons (h.reg hr) (ih hrest)

theorem call (h : n.Rebased t n') {c : Call RegRef} (hc : ∀ r ∈ c.operands, r.Below t) :
    (c.map n.reg).Rebased t (c.map n'.reg) := by
  have hmap : ∀ f : RegRef → Reg, c.routine.call? (c.operands.map f) = some (c.map f) := by
    intro f
    cases c <;> rfl
  have hcall := c.routine.call?_rebased (h.map_reg hc)
  rw [hmap, hmap] at hcall
  cases hcall with
  | some hc => exact hc

end Notes.Rebased

/-! ## Steps -/

namespace Build.Rebased

theorem notes : Rebased t (Notes.Rebased t) (Notes.Rebased t) Scripted.notes Scripted.notes :=
  fun b b' n n' hb hn => ⟨_, _, b, b', n, n', rfl, rfl, .ok hn, hb, hn⟩

theorem builder :
    Rebased t (Notes.Rebased t) (Builder.Rebased t) (getThe Builder : Scripted Builder)
      (getThe Builder) :=
  fun b b' n n' hb hn => ⟨_, _, b, b', n, n', rfl, rfl, .ok hb, hb, hn⟩

theorem note {f f' : Notes → Notes} (h : ∀ n n', n.Rebased t n' → (f n).Rebased t (f' n')) :
    Rebased t (Notes.Rebased t) Eq (Scripted.note f) (Scripted.note f') :=
  fun b b' n n' hb hn => ⟨_, _, b, b', f n, f' n', rfl, rfl, .ok rfl, hb, h n n' hn⟩

theorem tell {v v' : Value} (h : v.Rebased t v') :
    Rebased t (Notes.Rebased t) Eq (Scripted.tell v) (Scripted.tell v') :=
  note fun _ _ hn => hn.tell h

theorem setReg (slot : String) {r r' : Reg} (h : r.Rebased t r') :
    Rebased t (Notes.Rebased t) Eq (Scripted.note (·.setReg slot r))
      (Scripted.note (·.setReg slot r')) :=
  note fun _ _ hn => hn.setReg slot h

theorem keepLabel (slot : Option String) (l : Label) :
    Rebased t (Notes.Rebased t) Eq (slot.forM fun name => Scripted.note (·.setLabel name l))
      (slot.forM fun name => Scripted.note (·.setLabel name l)) := by
  cases slot with
  | none => exact pure rfl
  | some name => exact note fun _ _ hn => hn.setLabel name l

theorem keepScope (slot : Option String) (scope : Scope) :
    Rebased t (Notes.Rebased t) Eq (Scripted.keepScope slot scope)
      (Scripted.keepScope slot scope) := by
  cases slot with
  | none => exact pure rfl
  | some name => exact note fun _ _ hn => hn.setScope name scope

theorem reg {r : RegRef} (hr : r.Below t) :
    Rebased t (Notes.Rebased t) (Reg.Rebased t) (Scripted.reg r) (Scripted.reg r) :=
  bind notes fun _ _ hn => pure (hn.reg hr)

/-- Going to a label in a slot. -/
theorem jumpSlot (f : Notes → Label) (hf : ∀ n n', n.Rebased t n' → f n = f n') :
    Rebased t (Notes.Rebased t) Eq (do Build.jump (f (← Scripted.notes)))
      (do Build.jump (f (← Scripted.notes))) := by
  refine bind notes fun n n' hn => ?_
  rw [hf n n' hn]
  exact jump _

end Build.Rebased

/-- An instruction whose register lies below all temporaries is the same in both runs. -/
theorem Instruction.rebased_self {i : Instruction}
    (h : ∀ r, i.reg? = some r → r.index < min t.old t.new) : i.Rebased t i := by
  cases i with
  | write s r => exact .write s (Reg.rebased_of_lt (h r rfl))
  | case r => exact .case (Reg.rebased_of_lt (h r rfl))
  | setLabel l => exact .setLabel l
  | jump l => exact .jump l
  | comment text => exact .comment text
  | nop => exact .nop

mutual

theorem Step.rebased (step : Step) (h : ∀ r ∈ step.registers, r.Below t) :
    Build.Rebased t (Notes.Rebased t) Eq step.perform step.perform := by
  match step with
  | .fresh hint slot =>
    exact .bind_eq (.freshLabel hint) fun l => .bind_eq (.tell (.label l)) fun _ =>
      .keepLabel slot l
  | .define label =>
    refine .bind .notes fun n n' hn => ?_
    rw [Notes.label, Notes.label, hn.labels]
    exact .define _
  | .jump label =>
    exact .jumpSlot (·.label label) fun n n' hn => by rw [Notes.label, Notes.label, hn.labels]
  | .emit i =>
    refine .emit (Instruction.rebased_self fun r hr => ?_)
    exact h (.number r.index) (by simp [Step.registers, hr])
  | .write s r => exact .bind (.reg (h r List.mem_cons_self)) fun _ _ hr => .write s hr
  | .case r => exact .bind (.reg (h r List.mem_cons_self)) fun _ _ hr => .case hr
  | .check r =>
    exact .bind (.reg (h r List.mem_cons_self)) fun _ _ hr => .bind_eq (.check hr) fun _ =>
      .tell (.checked hr)
  | .comment text => exact .emit (.comment text)
  | .nop => exact .emit .nop
  | .size =>
    refine .bind .builder fun b b' hb => ?_
    rw [hb.size_eq]
    exact .tell (.size _)
  | .isEmpty =>
    refine .bind .builder fun b b' hb => ?_
    rw [Array.isEmpty, Array.isEmpty, hb.size_eq]
    exact .tell (.isEmpty _)
  | .alloc slot =>
    exact .bind .allocTemp fun _ _ hr => .bind_eq (.tell (.temporary hr)) fun _ =>
      .setReg slot hr.rebased
  | .free r => exact .bind (.reg (h r List.mem_cons_self)) fun _ _ hr => .freeTemp hr
  | .block slot body =>
    rw [Step.perform]
    rw [Step.registers] at h
    exact .block fun scope => .bind_eq (.keepScope slot scope) fun _ => performAll_rebased body h
  | .restart scope =>
    exact .jumpSlot (·.scope scope |>.start) fun n n' hn => by
      rw [Notes.scope, Notes.scope, hn.scopes]
  | .exit scope =>
    exact .jumpSlot (·.scope scope |>.finish) fun n n' hn => by
      rw [Notes.scope, Notes.scope, hn.scopes]
  | .cases r empty one hash =>
    rw [Step.perform]
    rw [Step.registers, List.forall_mem_cons, List.forall_mem_append, List.forall_mem_append] at h
    obtain ⟨hr, ⟨hempty, hone⟩, hhash⟩ := h
    exact .bind (.reg hr) fun _ _ hr => .cases hr (performAll_rebased empty hempty)
      (performAll_rebased one hone) (performAll_rebased hash hhash)
  | .loopOn r slot one hash =>
    rw [Step.perform]
    rw [Step.registers, List.forall_mem_cons, List.forall_mem_append] at h
    obtain ⟨hr, hone, hhash⟩ := h
    exact .bind (.reg hr) fun _ _ hr => .loopOn hr
      (fun scope => .bind_eq (.keepScope slot scope) fun _ => performAll_rebased one hone)
      (fun scope => .bind_eq (.keepScope slot scope) fun _ => performAll_rebased hash hhash)
  | .repeatOn r one hash =>
    rw [Step.perform]
    rw [Step.registers, List.forall_mem_cons, List.forall_mem_append] at h
    obtain ⟨hr, hone, hhash⟩ := h
    exact .bind (.reg hr) fun _ _ hr => .repeatOn hr (performAll_rebased one hone)
      (performAll_rebased hash hhash)
  | .whileNonempty r body =>
    rw [Step.perform]
    rw [Step.registers, List.forall_mem_cons] at h
    exact .bind (.reg h.1) fun _ _ hr => .whileNonempty hr (performAll_rebased body h.2)
  | .withTemp slot body =>
    rw [Step.perform]
    rw [Step.registers] at h
    exact .withTemp fun _ _ htemp => .bind_eq (.tell (.temporary htemp)) fun _ =>
      .bind_eq (.setReg slot htemp.rebased) fun _ => performAll_rebased body h
  | .call c => exact .bind .notes fun _ _ hn => .call (hn.call h)
  | .routine r operands => exact .bind .notes fun _ _ hn => .routine r (hn.map_reg h)
  | .attempt body =>
    rw [Step.perform]
    rw [Step.registers] at h
    exact .bind (performAll_rebased body h).attempt fun _ _ hresult => .tell (.outcome hresult)

theorem performAll_rebased (steps : List Step) (h : ∀ r ∈ registersAll steps, r.Below t) :
    Build.Rebased t (Notes.Rebased t) Eq (performAll steps) (performAll steps) := by
  match steps with
  | [] => exact .pure rfl
  | step :: rest =>
    rw [registersAll, List.forall_mem_append] at h
    exact .bind_eq (step.rebased h.1) fun _ => performAll_rebased rest h.2

end

/-! ## Runs -/

/-- Reports of steps that did the same. -/
structure Report.Rebased (t : Rebasing) (report report' : Report) : Prop where
  result : Alike (BuildError.Rebased t) Eq report.result report'.result
  values : List.Forall₂ (Value.Rebased t) report.values.toList report'.values.toList
  emitted : List.Forall₂ (Instruction.Rebased t) report.emitted.toList report'.emitted.toList

theorem Step.report_rebased {step : Step} (h : ∀ r ∈ step.registers, r.Below t) {b b' : Builder}
    {n n' : Notes} (hb : b.Rebased t b') (hn : n.Rebased t n') :
    (step.report b n).1.Rebased t (step.report b' n').1 ∧
      (step.report b n).2.1.Rebased t (step.report b' n').2.1 ∧
      (step.report b n).2.2.Rebased t (step.report b' n').2.2 := by
  have hreset : Notes.Rebased t { n with values := #[] } { n' with values := #[] } :=
    { hn with values := .nil }
  obtain ⟨result, result', c, c', u, u', hperform, hperform', hresult, hc, hu⟩ :=
    step.rebased h b b' _ _ hb hreset
  unfold report
  rw [hperform, hperform']
  refine ⟨⟨hresult, hu.values, ?_⟩, hc, hu⟩
  show List.Forall₂ _ (c.code.extract b.code.size c.code.size).toList
    (c'.code.extract b'.code.size c'.code.size).toList
  rw [Array.toList_extract, Array.toList_extract, hb.size_eq, hc.size_eq]
  exact List.forall₂_take _ (List.forall₂_drop _ hc.code)

theorem Script.runFrom_rebased {script : Script} (h : ∀ r ∈ registersAll script, r.Below t)
    {b b' : Builder} {n n' : Notes} (hb : b.Rebased t b') (hn : n.Rebased t n') :
    List.Forall₂ (Report.Rebased t) (script.runFrom b n).1 (script.runFrom b' n').1 ∧
      (script.runFrom b n).2.Rebased t (script.runFrom b' n').2 := by
  induction script generalizing b b' n n' with
  | nil => exact ⟨.nil, hb⟩
  | cons step rest ih =>
    rw [registersAll, List.forall_mem_append] at h
    obtain ⟨hreport, hb', hn'⟩ := step.report_rebased h.1 hb hn
    obtain ⟨hreports, hend⟩ := ih h.2 hb' hn'
    exact ⟨.cons hreport hreports, hend⟩

/-- Where the temporaries start makes no difference but to their names. Run on two builders whose
temporaries start at different registers, a script that names other registers only below both has
reports that correspond step by step: what a step returns, the values it tells, among them the
temporaries it takes, which lie equally far behind the first, and the instructions it appends. The
streams resolve to the same error, or to programs whose operations correspond one by one; and run on
register files that correspond, these halt in the same way after the same number of steps, whatever
number is allowed, with register files that correspond. -/
theorem base_only_renames_temporaries (t : Rebasing) (script : Script)
    (hregs : ∀ r ∈ registersAll script, r.Below t) :
    let run := script.run (.startingAt t.old)
    let run' := script.run (.startingAt t.new)
    List.Forall₂ (Report.Rebased t) run.1 run'.1 ∧
    ((∃ e, resolve run.2.code.toList = .error e ∧ resolve run'.2.code.toList = .error e) ∨
      ∃ p p', resolve run.2.code.toList = .ok p ∧ resolve run'.2.code.toList = .ok p' ∧
        List.Forall₂ (Op.Rebased t) p.ops p'.ops ∧
        (∀ m m' : Machine, m.toProgress.Rebased t m'.toProgress →
          (m.run p.ops).1 = (m'.run p'.ops).1 ∧
            (m.run p.ops).2.toProgress.Rebased t (m'.run p'.ops).2.toProgress) ∧
        ∀ m m' : Progress, m.Rebased t m' →
          ∀ limit,
            let ending := Config.runFor p.ops.toArray limit { m with pc := 0 }
            let ending' := Config.runFor p'.ops.toArray limit { m' with pc := 0 }
            ending.1 = ending'.1 ∧ ending.2.Rebased t ending'.2) := by
  intro run run'
  obtain ⟨hreports, hend⟩ := Script.runFrom_rebased hregs (.startingAt t)
    (⟨.nil, rfl, rfl, .nil⟩ : Notes.Rebased t {} {})
  refine ⟨hreports, ?_⟩
  have hresolve : Alike Eq (fun p p' => List.Forall₂ (Op.Rebased t) p.ops p'.ops)
      (resolve run.2.code.toList) (resolve run'.2.code.toList) := resolve_rebased hend.code
  generalize resolve run.2.code.toList = found, resolve run'.2.code.toList = found' at hresolve
  cases hresolve with
  | @error e e' he => exact .inl ⟨e, rfl, congrArg _ he.symm⟩
  | @ok p p' hops =>
    refine .inr ⟨p, p', rfl, rfl, hops, fun m m' hm => hm.run hops, fun m m' hm limit => ?_⟩
    have hconfig : Config.Rebased t { m with pc := 0 } { m' with pc := 0 } := ⟨rfl, hm⟩
    exact hconfig.runFor hops limit

/-- Two temporaries, one of them given back and then written to in vain. -/
def Script.twoTemporaries : Script :=
  [.alloc "t", .write .one (.slot "t"),
    .withTemp "u" [.call (.copy (.slot "t") (.slot "u")), .call (.clear (.slot "u"))],
    .free (.slot "t"), .write .hash (.slot "t"), .routine .swap [.number 1, .number 2]]

theorem base_only_renames_temporaries_twoTemporaries :
    let t : Rebasing := ⟨10, 1000, by decide, by decide⟩
    let script := Script.twoTemporaries
    (∀ r ∈ registersAll script, r.Below t) ∧
    ((script.run (.startingAt t.old)).1.map Report.result)[4]? =
      some (.error (.reserved ⟨10⟩)) ∧
    ((script.run (.startingAt t.new)).1.map Report.result)[4]? =
      some (.error (.reserved ⟨1000⟩)) ∧
    List.Forall₂ (Report.Rebased t) (script.run (.startingAt t.old)).1
      (script.run (.startingAt t.new)).1 ∧
    ∃ p p', resolve (script.run (.startingAt t.old)).2.code.toList = .ok p ∧
      resolve (script.run (.startingAt t.new)).2.code.toList = .ok p' ∧
      List.Forall₂ (Op.Rebased t) p.ops p'.ops := by
  intro t script
  have hregs : ∀ r ∈ registersAll script, r.Below t := by decide
  have hresult : ((script.run (.startingAt t.old)).1.map Report.result)[4]? =
      some (.error (.reserved ⟨10⟩)) := by
    decide +kernel
  have hresult' : ((script.run (.startingAt t.new)).1.map Report.result)[4]? =
      some (.error (.reserved ⟨1000⟩)) := by
    decide +kernel
  have hresolves : (resolve (script.run (.startingAt t.old)).2.code.toList).isOk = true := by
    decide +kernel
  have hmain := base_only_renames_temporaries t script hregs
  -- only what the runs are known to satisfy matters from here on
  generalize script.run (.startingAt t.old) = run at *
  generalize script.run (.startingAt t.new) = run' at *
  obtain ⟨hreports, ⟨e, he, -⟩ | ⟨p, p', hp, hp', hops, -⟩⟩ := hmain
  · rw [he] at hresolves
    cases hresolves
  · exact ⟨hregs, hresult, hresult', hreports, p, p', hp, hp', hops⟩

end TextMachine
