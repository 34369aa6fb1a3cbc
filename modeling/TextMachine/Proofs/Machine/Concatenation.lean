import TextMachine.Proofs.Machine.Bounds
import TextMachine.Proofs.Resolution.Concatenation

/-!
# Programs one after another

All jumps are relative, so the operations of two programs one after the other make a program that
runs the first and, if that halts properly, goes on with the second from where the first has left
the machine (`Machine.run_append_of_proper`). As long as the program counter stays in front of the
second program its operations make no difference (`Config.step?_append_left`); from there on the
machine runs as in the second program alone, with everything moved on by the length of the first
(`Config.runFor_append_right`). This takes a second program that cannot jump back in front of its
beginning, as resolved programs cannot.

The limit on the steps holds for both programs together, so it may stop the machine in the first
program, at the seam, or in the second.
-/

namespace TextMachine

/-- How a run ends when its program is moved on by `offset` positions. -/
def Halt.moved (offset : Nat) : Halt → Halt
  | proper => proper
  | improper pc => improper (pc + offset)
  | stepLimit => stepLimit

namespace Config

variable {a b : List Op} {c d : Config} {n : Nat}

/-- A configuration with its program moved on by `offset` positions. -/
def moved (offset : Nat) (c : Config) : Config :=
  { c with pc := c.pc + offset }

/-! ## In the first program -/

theorem step?_append_left (h : c.pc < a.length) :
    c.step? (a ++ b).toArray = c.step? a.toArray := by
  have hfetch : c.fetch? (a ++ b).toArray = c.fetch? a.toArray := by
    unfold fetch?
    split
    next hpc =>
      have hlt : c.pc.toNat < a.length := by omega
      rw [List.getElem?_toArray, List.getElem?_toArray, List.getElem?_append_left hlt]
    next => rfl
  rw [step?, step?, hfetch]

/-- A step of the first program is a step of both. -/
theorem step?_append_of_step? (h : c.step? a.toArray = some d) :
    c.step? (a ++ b).toArray = some d := by
  have hlt : c.pc < a.length := by
    by_contra hge
    rw [step?_eq_none (Int.not_lt.1 hge)] at h
    cases h
  rw [step?_append_left hlt, h]

/-- A run that the limit stops in the first program is stopped there. -/
theorem runFor_append_of_stepLimit (h : runFor a.toArray n c = (.stepLimit, d)) :
    runFor (a ++ b).toArray n c = (.stepLimit, d) := by
  induction n, c using run_induction a with
  | stop n c hstop =>
    rw [runFor_of_step?_eq_none hstop] at h
    exact absurd (congrArg Prod.fst h) (halt_ne_stepLimit _ c)
  | limit c next hstep =>
    rw [runFor_zero_of_step? hstep] at h
    rw [runFor_zero_of_step? (step?_append_of_step? hstep), h]
  | step n c next hstep ih =>
    rw [runFor_succ_of_step? hstep] at h
    rw [runFor_succ_of_step? (step?_append_of_step? hstep)]
    exact ih h

/-- A run that halts properly in the first program comes to the beginning of the second, with the
steps that are left. -/
theorem runFor_append_of_proper (h : runFor a.toArray n c = (.proper, d)) :
    d.pc = a.length ∧ c.steps ≤ d.steps ∧ ∃ left, d.steps + left = c.steps + n ∧
      runFor (a ++ b).toArray n c = runFor (a ++ b).toArray left d := by
  induction n, c using run_induction a with
  | stop n c hstop =>
    rw [runFor_of_step?_eq_none hstop] at h
    obtain ⟨hproper, rfl⟩ := Prod.mk.inj h
    exact ⟨pc_eq_of_halt_eq_proper hproper, Nat.le_refl _, n, rfl, rfl⟩
  | limit c next hstep =>
    rw [runFor_zero_of_step? hstep] at h
    cases h
  | step n c next hstep ih =>
    rw [runFor_succ_of_step? hstep] at h
    obtain ⟨hpc, hle, left, hleft, hrun⟩ := ih h
    have hnext := steps_of_step? hstep
    refine ⟨hpc, by omega, left, by omega, ?_⟩
    rw [runFor_succ_of_step? (step?_append_of_step? hstep), hrun]

/-! ## In the second program -/

theorem step?_append_right (h : 0 ≤ c.pc) :
    (c.moved a.length).step? (a ++ b).toArray = (c.step? b.toArray).map (moved a.length) := by
  have hfetch : (c.moved a.length).fetch? (a ++ b).toArray = c.fetch? b.toArray := by
    have hpc : (c.pc + a.length).toNat = a.length + c.pc.toNat := by omega
    show (if 0 ≤ c.pc + a.length then (a ++ b).toArray[(c.pc + a.length).toNat]? else none) =
      if 0 ≤ c.pc then b.toArray[c.pc.toNat]? else none
    rw [if_pos h, if_pos (by omega), hpc, List.getElem?_toArray, List.getElem?_toArray,
      List.getElem?_append_right (Nat.le_add_right _ _), Nat.add_sub_cancel_left]
  rw [step?, step?, hfetch, Option.map_map]
  congr 1
  funext op
  simp only [Function.comp, moved, Config.mk.injEq, true_and]
  omega

theorem halt_append_right (c : Config) :
    (c.moved a.length).halt (a ++ b).toArray = (c.halt b.toArray).moved a.length := by
  have hend : c.pc + a.length = ((a.length + b.length : Nat) : Int) ↔ c.pc = b.length := by omega
  show (if c.pc + a.length = ((a ++ b).toArray.size : Int) then Halt.proper
    else .improper (c.pc + a.length)) = _
  rw [List.size_toArray, List.length_append, halt, List.size_toArray]
  by_cases hpc : c.pc = b.length
  · rw [if_pos hpc, if_pos (hend.2 hpc)]
    rfl
  · rw [if_neg hpc, if_neg fun h => hpc (hend.1 h)]
    rfl

/-- From the beginning of the second program on, the machine runs as in that program alone. -/
theorem runFor_append_right (hwell : OpsWellFormed b.length 0 b) (hc : 0 ≤ c.pc) :
    runFor (a ++ b).toArray n (c.moved a.length) =
      ((runFor b.toArray n c).1.moved a.length, (runFor b.toArray n c).2.moved a.length) := by
  have hmoved := @step?_append_right a b
  induction n, c using run_induction b with
  | stop n c hstop =>
    have hstop' := hmoved hc
    rw [hstop, Option.map_none] at hstop'
    rw [runFor_of_step?_eq_none hstop, runFor_of_step?_eq_none hstop', halt_append_right]
  | limit c next hstep =>
    have hstep' := hmoved hc
    rw [hstep, Option.map_some] at hstep'
    rw [runFor_zero_of_step? hstep, runFor_zero_of_step? hstep']
    rfl
  | step n c next hstep ih =>
    have hstep' := hmoved hc
    rw [hstep, Option.map_some] at hstep'
    -- no jump of the second program leads in front of it
    have hnext : 0 ≤ next.pc := by
      rcases step_bounds hwell hstep with h | h
      · exact h.1
      · omega
    rw [runFor_succ_of_step? hstep, runFor_succ_of_step? hstep']
    exact ih hnext

end Config

/-! ## Whole runs -/

namespace Machine

variable {a b : List Op} {m : Machine}

theorem run_append_of_stepLimit (h : (m.run a).1 = .stepLimit) : m.run (a ++ b) = m.run a := by
  have hfirst : Config.runFor a.toArray (stepLimit - m.steps) { m with pc := 0 } =
      (.stepLimit, (Config.runFor a.toArray (stepLimit - m.steps) { m with pc := 0 }).2) :=
    Prod.ext h rfl
  have hrun := (Config.runFor_append_of_stepLimit (b := b) hfirst).trans hfirst.symm
  refine Prod.ext ?_ (eq_of_progress_eq ?_)
  · rw [halt_run, halt_run, hrun]
  · rw [progress_run, progress_run, hrun]

/-- Both programs together do what the second does on the machine that the first leaves. -/
theorem run_append_of_proper (hwell : OpsWellFormed b.length 0 b) (h : (m.run a).1 = .proper) :
    m.run (a ++ b) =
      (((m.run a).2.run b).1.moved a.length, ((m.run a).2.run b).2) := by
  let d := (Config.runFor a.toArray (stepLimit - m.steps) { m with pc := 0 }).2
  have hfirst : Config.runFor a.toArray (stepLimit - m.steps) { m with pc := 0 } = (.proper, d) :=
    Prod.ext h rfl
  obtain ⟨hpc, hle, left, hleft, hrun⟩ := Config.runFor_append_of_proper (b := b) hfirst
  -- what is left of the limit is what the second program may use
  have hleft' : left = stepLimit - d.steps := by
    have hsteps : m.steps ≤ d.steps := hle
    have htotal : d.steps + left = m.steps + (stepLimit - m.steps) := hleft
    omega
  have hseam : d = Config.moved a.length { d.toProgress with pc := 0 } := by
    show d = { d with pc := 0 + (a.length : Int) }
    rw [Int.zero_add, ← hpc]
  rw [hseam, Config.runFor_append_right hwell (Int.le_refl 0), hleft'] at hrun
  refine Prod.ext ?_ (eq_of_progress_eq ?_)
  · rw [halt_run, hrun]
    rfl
  · rw [progress_run, hrun]
    rfl

end Machine

/-- **Streams compose.** Two streams that resolve and define no label in common resolve one after
the other, to the operations and the comments of both. The program that they make runs like the
programs of the two on the same machine, one after the other, if the first of these halts properly;
where the second halts improperly, it does so further on by the length of the first. A run that the
step limit stops in the first program is stopped there. -/
theorem streams_compose {a b : List Instruction} {p q : Program} (ha : resolve a = .ok p)
    (hb : resolve b = .ok q) (hlabels : ∀ l ∈ definedLabels a, l ∉ definedLabels b) :
    ∃ whole, resolve (a ++ b) = .ok whole ∧ p.Joins q whole ∧
      ∀ m : Machine,
        ((m.run p.ops).1 = .proper →
          m.run whole.ops =
            (((m.run p.ops).2.run q.ops).1.moved p.size, ((m.run p.ops).2.run q.ops).2)) ∧
        ((m.run p.ops).1 = .stepLimit → m.run whole.ops = m.run p.ops) := by
  obtain ⟨whole, hwhole, hjoins⟩ := exists_joins_of_resolve ha hb hlabels
  refine ⟨whole, hwhole, hjoins, fun m => ?_⟩
  rw [hjoins.ops]
  exact ⟨Machine.run_append_of_proper (wellFormed_of_resolve hb).ops,
    Machine.run_append_of_stepLimit⟩

/-- Empty register 1. -/
def drain : List Instruction :=
  [.comment "drain", .setLabel ⟨"top"⟩, .case ⟨1⟩, .jump ⟨"end"⟩, .jump ⟨"top"⟩, .jump ⟨"top"⟩,
    .setLabel ⟨"end"⟩, .comment "drained"]

/-- A dispatch that can leave the program past its end. -/
def leap : List Instruction :=
  [.comment "leap", .setLabel ⟨"again"⟩, .write .one ⟨2⟩, .case ⟨3⟩, .jump ⟨"again"⟩]

/-- The comments meet at the seam, and the second stream leaves the program past its end. -/
theorem streams_compose_drainThenLeap :
    ∃ whole, resolve (drain ++ leap) = .ok whole ∧
      whole.comments.get? 4 = some ["drained", "leap"] ∧
      ((Machine.ofList [(⟨1⟩, ['1', '#']), (⟨3⟩, ['#'])]).run whole.ops).1 = .improper 8 := by
  let p : Program :=
    { ops := [.case ⟨1⟩, .forward 3, .backward 2, .backward 3]
      comments := .ofList [(0, ["drain"]), (4, ["drained"])] }
  let q : Program :=
    { ops := [.write .one ⟨2⟩, .case ⟨3⟩, .backward 2], comments := .ofList [(0, ["leap"])] }
  have hdrain : resolve drain = .ok p := by decide +kernel
  have hleap : resolve leap = .ok q := by decide +kernel
  have hlabels : ∀ l ∈ definedLabels drain, l ∉ definedLabels leap := by decide
  obtain ⟨whole, hwhole, hjoins, hruns⟩ := streams_compose hdrain hleap hlabels
  refine ⟨whole, hwhole, hjoins.between, ?_⟩
  have hproper : ((Machine.ofList [(⟨1⟩, ['1', '#']), (⟨3⟩, ['#'])]).run p.ops).1 = .proper := by
    decide +kernel
  rw [(hruns _).1 hproper]
  decide +kernel

end TextMachine
