import TextMachine.Proofs.Build.Rebasing
import TextMachine.Proofs.Machine.Traces
import TextMachine.Proofs.Resolution.Positions

/-!
# Programs that differ in their temporaries

Streams that correspond under a `Rebasing` have the same labels at the same places, so they resolve
alike (`resolve_rebased`): to the same error, or to programs whose operations correspond one by one.
Run on register files that correspond, such programs go through the same positions and keep the
register files so (`Config.Rebased.step?`, `Config.Rebased.runFor`).
-/

namespace TextMachine

variable {t : Rebasing}

/-! ## Resolution -/

/-- Operations that differ in their registers. -/
inductive Op.Rebased (t : Rebasing) : Op → Op → Prop where
  | write (s : Symbol) {r r' : Reg} (h : r.Rebased t r') : Rebased t (.write s r) (.write s r')
  | forward (d : Nat) : Rebased t (.forward d) (.forward d)
  | backward (d : Nat) : Rebased t (.backward d) (.backward d)
  | case {r r' : Reg} (h : r.Rebased t r') : Rebased t (.case r) (.case r')

theorem Alike.bind {ε α α' β β' : Type} {E : ε → ε → Prop} {R : α → α' → Prop} {Q : β → β' → Prop}
    {x : Except ε α} {x' : Except ε α'} {f : α → Except ε β} {f' : α' → Except ε β'}
    (hx : Alike E R x x') (hf : ∀ a a', R a a' → Alike E Q (f a) (f' a')) :
    Alike E Q (x >>= f) (x' >>= f') := by
  cases hx with
  | ok h => exact hf _ _ h
  | error h => exact .error h

theorem Label.resolve_rebased (l : Label) (here target : Nat) :
    Alike Eq (Op.Rebased t) (l.resolve here target) (l.resolve here target) := by
  unfold Label.resolve
  split
  · exact .ok (.forward _)
  · split
    · exact .ok (.backward _)
    · exact .error rfl

namespace Instruction.Rebased

variable {i i' : Instruction}

theorem width_eq (h : i.Rebased t i') : i.width = i'.width := by
  cases h <;> rfl

theorem definedLabel?_eq (h : i.Rebased t i') : i.definedLabel? = i'.definedLabel? := by
  cases h <;> rfl

theorem resolve (h : i.Rebased t i') (positions : List (Label × Nat)) (here : Nat) :
    Alike Eq (Option.Rel (Op.Rebased t)) (i.resolve positions here)
      (i'.resolve positions here) := by
  have hreg : ∀ {r r' : Reg}, r.Rebased t r' → Alike Eq (Reg.Rebased t) r.resolve r'.resolve := by
    intro r r' hr
    simp only [Reg.resolve, hr.zero_iff]
    split
    · exact .error rfl
    · exact .ok hr
  cases h with
  | write s hr => exact (hreg hr).bind fun _ _ hq => .ok (.some (.write s hq))
  | case hr => exact (hreg hr).bind fun _ _ hq => .ok (.some (.case hq))
  | jump l =>
    simp only [Instruction.resolve]
    cases positions.lookup l with
    | none => exact .error rfl
    | some target => exact (l.resolve_rebased here target).bind fun _ _ hop => .ok (.some hop)
  | setLabel l => exact .ok .none
  | comment text => exact .ok .none
  | header _ => exact .ok .none
  | nop => exact .ok .none

end Instruction.Rebased

section Streams

variable {code code' : List Instruction} (h : List.Forall₂ (Instruction.Rebased t) code code')

include h

theorem definedLabels_rebased : definedLabels code = definedLabels code' := by
  induction h with
  | nil => rfl
  | cons hi _ ih => rw [definedLabels_cons, definedLabels_cons, hi.definedLabel?_eq, ih]

theorem labelPositions_rebased (here : Nat) :
    labelPositions here code = labelPositions here code' := by
  induction h generalizing here with
  | nil => rfl
  | cons hi _ ih =>
    rw [labelPositions_cons, labelPositions_cons, hi.definedLabel?_eq, hi.width_eq, ih]

theorem resolveOps_rebased (positions : List (Label × Nat)) (here : Nat) :
    Alike Eq (List.Forall₂ (Op.Rebased t)) (resolveOps positions here code)
      (resolveOps positions here code') := by
  induction h generalizing here with
  | nil => exact .ok .nil
  | cons hi _ ih =>
    rw [resolveOps, resolveOps, hi.width_eq]
    refine (hi.resolve positions here).bind fun op? op?' hop => (ih _).bind fun _ _ hops => .ok ?_
    cases hop with
    | none => exact hops
    | some hop => exact .cons hop hops

/-- Streams that correspond resolve to the same error, or to programs that correspond. -/
theorem resolve_rebased :
    Alike Eq (fun p p' => List.Forall₂ (Op.Rebased t) p.ops p'.ops) (resolve code)
      (resolve code') := by
  unfold resolve
  rw [definedLabels_rebased h, labelPositions_rebased h]
  cases firstRepeated? [] (definedLabels code') with
  | some l => exact .error rfl
  | none => exact (resolveOps_rebased h _ 0).bind fun _ _ hops => .ok hops

end Streams

/-! ## Runs -/

/-- Register files in which registers that correspond hold the same. -/
def Registers.Rebased (t : Rebasing) (rs rs' : Registers) : Prop :=
  ∀ r r', r.Rebased t r' → rs.contents r = rs'.contents r'

/-- As many steps made, with registers that correspond. -/
structure Progress.Rebased (t : Rebasing) (m m' : Progress) : Prop where
  steps_eq : m.steps = m'.steps
  registers : m.registers.Rebased t m'.registers

/-- Machines that have come as far, at the same position of their programs. -/
structure Config.Rebased (t : Rebasing) (c c' : Config) : Prop where
  pc_eq : c.pc = c'.pc
  progress : c.toProgress.Rebased t c'.toProgress

/-- Operations that correspond move the program counter alike, and keep the register files so. -/
theorem Op.Rebased.execute {op op' : Op} (h : op.Rebased t op') {rs rs' : Registers}
    (hrs : rs.Rebased t rs') :
    (op.execute rs).1.Rebased t (op'.execute rs').1 ∧ (op.execute rs).2 = (op'.execute rs').2 := by
  cases h with
  | forward d => exact ⟨hrs, rfl⟩
  | backward d => exact ⟨hrs, rfl⟩
  | @write s r r' hr =>
    refine ⟨fun q q' hq => ?_, rfl⟩
    show (rs.write s r).contents q = (rs'.write s r').contents q'
    simp only [Registers.contents_write, hq.eq_iff hr, hrs r r' hr, hrs q q' hq]
  | @case r r' hr =>
    obtain ⟨hfirst, hrest⟩ := rs.consume_eq r
    obtain ⟨hfirst', hrest'⟩ := rs'.consume_eq r'
    constructor
    · intro q q' hq
      show (rs.consume r).2.contents q = (rs'.consume r').2.contents q'
      rw [hrest, hrest', Store.drop, Store.drop, Function.update_apply, Function.update_apply,
        hrs r r' hr, hrs q q' hq]
      simp only [hq.eq_iff hr]
    · show dispatchOffset (rs.consume r).1 = dispatchOffset (rs'.consume r').1
      rw [hfirst, hfirst', Store.first?, Store.first?, hrs r r' hr]

theorem getElem?_rebased {ops ops' : List Op} (h : List.Forall₂ (Op.Rebased t) ops ops') (i : Nat) :
    Option.Rel (Op.Rebased t) ops[i]? ops'[i]? := by
  induction h generalizing i with
  | nil => exact .none
  | cons hop _ ih =>
    cases i with
    | zero => exact .some hop
    | succ i => exact ih i

namespace Config.Rebased

variable {ops ops' : List Op} {c c' : Config} (hops : List.Forall₂ (Op.Rebased t) ops ops')

include hops

theorem step? (h : c.Rebased t c') :
    Option.Rel (Config.Rebased t) (c.step? ops.toArray) (c'.step? ops'.toArray) := by
  have hfetch : Option.Rel (Op.Rebased t) (c.fetch? ops.toArray) (c'.fetch? ops'.toArray) := by
    simp only [fetch?, h.pc_eq, List.getElem?_toArray]
    split
    · exact getElem?_rebased hops _
    · exact .none
  unfold Config.step?
  generalize c.fetch? ops.toArray = op, c'.fetch? ops'.toArray = op' at hfetch
  cases hfetch with
  | none => exact .none
  | some hop =>
    obtain ⟨hregisters, hoffset⟩ := hop.execute h.progress.registers
    refine .some ⟨?_, congrArg (· + 1) h.progress.steps_eq, hregisters⟩
    show c.pc + _ = c'.pc + _
    rw [h.pc_eq, hoffset]

theorem halt_eq (h : c.Rebased t c') : c.halt ops.toArray = c'.halt ops'.toArray := by
  simp only [halt, h.pc_eq, List.size_toArray, hops.length_eq]

/-- However many steps are allowed, runs on machines that correspond end alike. -/
theorem runFor (h : c.Rebased t c') (limit : Nat) :
    (c.runFor ops.toArray limit).1 = (c'.runFor ops'.toArray limit).1 ∧
      (c.runFor ops.toArray limit).2.Rebased t (c'.runFor ops'.toArray limit).2 := by
  induction limit generalizing c c' with
  | zero =>
    have hstep := step? hops h
    unfold Config.runFor
    generalize c.step? ops.toArray = next, c'.step? ops'.toArray = next' at hstep
    cases hstep with
    | none => exact ⟨halt_eq hops h, h⟩
    | some _ => exact ⟨rfl, h⟩
  | succ limit ih =>
    have hstep := step? hops h
    unfold Config.runFor
    generalize c.step? ops.toArray = next, c'.step? ops'.toArray = next' at hstep
    cases hstep with
    | none => exact ⟨halt_eq hops h, h⟩
    | some hnext => exact ih hnext

end Config.Rebased

/-- Machines that have come as far have as many steps left, and run alike. -/
theorem Progress.Rebased.run {ops ops' : List Op} (hops : List.Forall₂ (Op.Rebased t) ops ops')
    {m m' : Machine} (h : m.toProgress.Rebased t m'.toProgress) :
    (m.run ops).1 = (m'.run ops').1 ∧
      (m.run ops).2.toProgress.Rebased t (m'.run ops').2.toProgress := by
  have hconfig : Config.Rebased t { m with pc := 0 } { m' with pc := 0 } := ⟨rfl, h⟩
  obtain ⟨hhalt, hend⟩ := hconfig.runFor hops (Machine.stepLimit - m.steps)
  simp only [Machine.halt_run, Machine.progress_run, ← h.steps_eq]
  exact ⟨hhalt, hend.progress⟩

end TextMachine
