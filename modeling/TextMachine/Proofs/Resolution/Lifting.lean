import TextMachine.Proofs.Resolution.Errors
import TextMachine.Proofs.Resolution.RoundTrip

/-!
# Lifting arbitrary programs

A program that did not come from a stream may hold anything: jumps without a distance, jumps out of
the program, register 0, comments past the end, entries without texts. Lifting looks at the jumps
only, in the order of the program, and fails with the first that *strays* (`Program.StrayAt`). It
takes everything else over, so it is resolving the lifted stream that refuses register 0 and loses
the comments that stand nowhere (`lift_of_arbitrary`).

The target pass and the pass that writes the jumps agree about the targets, so every jump goes to a
label that stands in the stream, and stands there once.
-/

namespace TextMachine

/-! ## Stray jumps -/

/-- What keeps the jump at index `i` of a program from being expressed by a label. -/
inductive Program.StrayAt (p : Program) (i : Nat) : ResolveError → Prop
  | idleForward (hi : p.ops[i]? = some (.forward 0)) :
      StrayAt p i (.selfJump ⟨"@" ++ toString i⟩)
  | idleBackward (hi : p.ops[i]? = some (.backward 0)) :
      StrayAt p i (.selfJump ⟨"@" ++ toString i⟩)
  | pastEnd {d : Nat} (hi : p.ops[i]? = some (.forward d)) (hd : d ≠ 0) (hend : p.size < i + d) :
      StrayAt p i (.outOfRange i)
  | beforeStart {d : Nat} (hi : p.ops[i]? = some (.backward d)) (hstart : i < d) :
      StrayAt p i (.outOfRange i)

theorem Program.checkTarget_eq_error_iff {size here : Nat} {target : Int} {e : ResolveError} :
    checkTarget size here target = .error e ↔
      (target = here ∧ e = .selfJump (.atPosition here)) ∨
        (target ≠ here ∧ ¬ (0 ≤ target ∧ target ≤ size) ∧ e = .outOfRange here) := by
  unfold checkTarget
  split
  next heq => simp [heq, eq_comm]
  next hne =>
    split
    next hrange => simp [hne, hrange]
    next hrange =>
      simp only [Except.error.injEq, hne, hrange, ne_eq, false_and, not_false_eq_true, true_and,
        false_or]
      exact eq_comm

/-- The check of the target of an operation at position `here` fails. -/
def Op.StraysWith (size here : Nat) (e : ResolveError) (op : Op) : Prop :=
  ∃ target, op.target? here = some target ∧ Program.checkTarget size here target = .error e

theorem Op.landsAt_iff_forall_not_straysWith {size here : Nat} {op : Op} :
    op.LandsAt size here ↔ ∀ e, ¬ op.StraysWith size here e := by
  constructor
  · rintro h e ⟨target, htarget, hcheck⟩
    obtain ⟨hne, hrange⟩ := h target htarget
    rcases Program.checkTarget_eq_error_iff.1 hcheck with ⟨heq, -⟩ | ⟨-, hout, -⟩
    · exact hne heq
    · exact hout hrange
  · intro h target htarget
    have hne : target ≠ here := fun heq =>
      h _ ⟨target, htarget, Program.checkTarget_eq_error_iff.2 (.inl ⟨heq, rfl⟩)⟩
    refine ⟨hne, ?_⟩
    by_contra hout
    exact h _ ⟨target, htarget, Program.checkTarget_eq_error_iff.2 (.inr ⟨hne, hout, rfl⟩)⟩

/-- The check of targets says what is wrong with a jump. -/
theorem Program.strayAt_iff {p : Program} {i : Nat} {e : ResolveError} :
    p.StrayAt i e ↔ ∃ op, p.ops[i]? = some op ∧ op.StraysWith p.size i e := by
  constructor
  · intro h
    cases h with
    | idleForward hi =>
      exact ⟨_, hi, _, rfl, checkTarget_eq_error_iff.2 (.inl ⟨by omega, rfl⟩)⟩
    | idleBackward hi =>
      exact ⟨_, hi, _, rfl, checkTarget_eq_error_iff.2 (.inl ⟨by omega, rfl⟩)⟩
    | pastEnd hi hd hend =>
      exact ⟨_, hi, _, rfl, checkTarget_eq_error_iff.2 (.inr ⟨by omega, by omega, rfl⟩)⟩
    | beforeStart hi hstart =>
      exact ⟨_, hi, _, rfl, checkTarget_eq_error_iff.2 (.inr ⟨by omega, by omega, rfl⟩)⟩
  · rintro ⟨op, hi, target, htarget, hcheck⟩
    have hlt : i < p.size := (List.getElem?_eq_some_iff.1 hi).1
    rw [checkTarget_eq_error_iff] at hcheck
    cases op with
    | write s r => cases htarget
    | case r => cases htarget
    | forward d =>
      obtain rfl := Option.some.inj htarget
      rcases hcheck with ⟨heq, rfl⟩ | ⟨hne, hout, rfl⟩
      · obtain rfl : d = 0 := by omega
        exact .idleForward hi
      · exact .pastEnd hi (by omega) (by omega)
    | backward d =>
      obtain rfl := Option.some.inj htarget
      rcases hcheck with ⟨heq, rfl⟩ | ⟨hne, hout, rfl⟩
      · obtain rfl : d = 0 := by omega
        exact .idleBackward hi
      · exact .beforeStart hi (by omega)

/-! ## The first stray jump decides -/

section First

variable {size here : Nat} {ops : List Op} {e : ResolveError}

theorem opsLand_take_iff {i : Nat} :
    OpsLand size here (ops.take i) ↔
      ∀ j < i, ∀ op, ops[j]? = some op → op.LandsAt size (here + j) := by
  induction ops generalizing here i with
  | nil => simp [OpsLand]
  | cons first rest ih =>
    cases i with
    | zero => simp [OpsLand]
    | succ i =>
      have hshift : ∀ j, here + 1 + j = here + (j + 1) := by omega
      simp only [List.take_succ_cons, OpsLand, ih, hshift]
      constructor
      · rintro ⟨hfirst, hrest⟩ j hj op hop
        cases j with
        | zero =>
          obtain rfl := Option.some.inj hop
          exact hfirst
        | succ j => exact hrest j (Nat.lt_of_succ_lt_succ hj) op hop
      · intro h
        exact ⟨h 0 (Nat.succ_pos i) first rfl, fun j hj => h (j + 1) (Nat.succ_lt_succ hj)⟩

namespace Program

theorem jumpTargets_cons_eq_error_iff {first : Op} :
    jumpTargets size here (first :: ops) = .error e ↔
      first.StraysWith size here e ∨
        first.LandsAt size here ∧ jumpTargets size (here + 1) ops = .error e := by
  rw [jumpTargets, Op.landsAt_iff_forall_not_straysWith]
  unfold Op.StraysWith
  cases first.target? here with
  | none => simp
  | some target =>
    show (checkTarget size here target >>= fun t =>
      jumpTargets size (here + 1) ops >>= fun ts => pure (t :: ts)) = _ ↔ _
    simp only [bind_eq_error_iff, Option.some.injEq, exists_eq_left']
    cases checkTarget size here target with
    | error e' => simp
    | ok t => simp [pure, Except.pure]

theorem jumpTargets_eq_error_iff :
    jumpTargets size here ops = .error e ↔
      ∃ i op, ops[i]? = some op ∧ op.StraysWith size (here + i) e ∧
        OpsLand size here (ops.take i) := by
  induction ops generalizing here with
  | nil =>
    refine iff_of_false nofun ?_
    rintro ⟨i, op, hi, -⟩
    cases hi
  | cons first rest ih =>
    have hshift : ∀ i, here + 1 + i = here + (i + 1) := by omega
    simp only [jumpTargets_cons_eq_error_iff, ih, hshift]
    constructor
    · rintro (hfirst | ⟨hfirst, i, op, hi, hstrays, hbefore⟩)
      · exact ⟨0, first, rfl, hfirst, trivial⟩
      · exact ⟨i + 1, op, hi, hstrays, hfirst, hbefore⟩
    · rintro ⟨i, op, hi, hstrays, hbefore⟩
      cases i with
      | zero =>
        obtain rfl := Option.some.inj hi
        exact .inl hstrays
      | succ i => exact .inr ⟨hbefore.1, i, op, hi, hstrays, hbefore.2⟩

end Program

end First

namespace Program

variable {p : Program}

theorem opsLand_take_iff_forall_not_strayAt {i : Nat} :
    OpsLand p.size 0 (p.ops.take i) ↔ ∀ j < i, ∀ e, ¬ p.StrayAt j e := by
  rw [opsLand_take_iff]
  simp only [strayAt_iff, Op.landsAt_iff_forall_not_straysWith, Nat.zero_add]
  constructor
  · rintro h j hj e ⟨op, hop, hstrays⟩
    exact h j hj op hop e hstrays
  · intro h j hj op hop e hstrays
    exact h j hj e ⟨op, hop, hstrays⟩

theorem opsLand_iff_forall_not_strayAt :
    OpsLand p.size 0 p.ops ↔ ∀ i e, ¬ p.StrayAt i e := by
  have hall : p.ops.take p.size = p.ops := List.take_length
  rw [← hall, opsLand_take_iff_forall_not_strayAt]
  constructor
  · intro h i e hstray
    obtain ⟨op, hop, -⟩ := strayAt_iff.1 hstray
    exact h i (List.getElem?_eq_some_iff.1 hop).1 e hstray
  · exact fun h i _ => h i

theorem lift_eq_error_iff {e : ResolveError} :
    p.lift = .error e ↔ ∃ i, p.StrayAt i e ∧ ∀ j < i, ∀ e', ¬ p.StrayAt j e' := by
  have hlift : p.lift = .error e ↔ jumpTargets p.size 0 p.ops = .error e := by
    rw [lift, bind_eq_error_iff]
    refine or_iff_left ?_
    rintro ⟨_, -, h⟩
    cases h
  rw [hlift, jumpTargets_eq_error_iff]
  simp only [opsLand_take_iff_forall_not_strayAt, strayAt_iff, Nat.zero_add]
  constructor
  · rintro ⟨i, op, hop, hstrays, hfirst⟩
    exact ⟨i, ⟨op, hop, hstrays⟩, hfirst⟩
  · rintro ⟨i, ⟨op, hop, hstrays⟩, hfirst⟩
    exact ⟨i, op, hop, hstrays, hfirst⟩

theorem lift_eq_ok_iff {code : List Instruction} :
    p.lift = .ok code ↔
      (∀ i e, ¬ p.StrayAt i e) ∧ code = p.liftFrom (targetsFrom 0 p.ops) 0 p.ops := by
  constructor
  · intro h
    -- a first stray jump would have been reported
    have hnone : ∀ i e, ¬ p.StrayAt i e := by
      intro i
      induction i using Nat.strongRecOn with
      | ind i ih =>
        intro e hstray
        rw [lift_eq_error_iff.2 ⟨i, hstray, ih⟩] at h
        cases h
    refine ⟨hnone, ?_⟩
    rw [lift, jumpTargets_eq_ok (opsLand_iff_forall_not_strayAt.2 hnone)] at h
    exact (Except.ok.inj h).symm
  · rintro ⟨hnone, rfl⟩
    rw [lift, jumpTargets_eq_ok (opsLand_iff_forall_not_strayAt.2 hnone)]
    rfl

end Program

/-! ## The labels of a lifted program -/

/-- The target pass finds every target that a jump is written with. -/
theorem mem_targetsFrom (here : Nat) {i target : Nat} {ops : List Op} {op : Op}
    (hop : ops[i]? = some op) (htarget : (op.target? (here + i)).map Int.toNat = some target) :
    target ∈ targetsFrom here ops := by
  induction ops generalizing here i with
  | nil => cases hop
  | cons first rest ih =>
    rw [targetsFrom, List.mem_append]
    cases i with
    | zero =>
      obtain rfl := Option.some.inj hop
      left
      rw [← Option.toList_map, ← Nat.add_zero here, htarget]
      exact List.mem_singleton.2 rfl
    | succ i =>
      right
      apply ih (here + 1) hop
      rwa [Nat.add_assoc, Nat.add_comm 1]

theorem count_setLabel_liftFrom {p : Program} {t : Nat} (h : OpsLand p.size 0 p.ops)
    (ht : t ∈ targetsFrom 0 p.ops) :
    (p.liftFrom (targetsFrom 0 p.ops) 0 p.ops).count (.setLabel (.atPosition t)) = 1 := by
  apply count_setLabel_eq_one (nodup_definedLabels_liftFrom p.ops)
  apply mem_definedLabels_of_lookup
  exact lookup_labelPositions_liftFrom ht (le_of_mem_targetsFrom h ht)

/-! ## Lifting and resolving -/

/-- **Lifting arbitrary programs.** Lifting fails exactly for the programs with a stray jump, in the
way of the first one. What it gives for the others resolves to the same operations, unless one of
them has register 0, and to those comments that stand at a position of the program. The target of
every jump has a label, and every label is defined once. -/
theorem lift_of_arbitrary (p : Program) :
    (∀ e, p.lift = .error e ↔ ∃ i, p.StrayAt i e ∧ ∀ j < i, ∀ e', ¬ p.StrayAt j e') ∧
      ((∃ code, p.lift = .ok code) ↔ ∀ i e, ¬ p.StrayAt i e) ∧
      ∀ code, p.lift = .ok code →
        (resolve code =
          if ∃ op ∈ p.ops, op.reg? = some ⟨0⟩ then .error .zeroRegister
          else .ok ⟨p.ops, p.comments.upTo p.size⟩) ∧
        ∃ targets, Program.jumpTargets p.size 0 p.ops = .ok targets ∧
          (∀ i d, p.ops[i]? = some (.forward d) → i + d ∈ targets) ∧
          (∀ i d, p.ops[i]? = some (.backward d) → i - d ∈ targets) ∧
          ∀ t ∈ targets, code.count (.setLabel (.atPosition t)) = 1 := by
  refine ⟨fun e => Program.lift_eq_error_iff, ?_, ?_⟩
  · simp [Program.lift_eq_ok_iff]
  · intro code hcode
    obtain ⟨hstray, rfl⟩ := Program.lift_eq_ok_iff.1 hcode
    have hland := Program.opsLand_iff_forall_not_strayAt.2 hstray
    refine ⟨Program.resolve_lift hland, _, Program.jumpTargets_eq_ok hland, ?_, ?_, ?_⟩
    · intro i d hi
      apply mem_targetsFrom 0 hi
      simp only [Op.target?, Option.map_some, Option.some.injEq]
      omega
    · intro i d hi
      apply mem_targetsFrom 0 hi
      simp only [Op.target?, Option.map_some, Option.some.injEq]
      omega
    · exact fun t ht => count_setLabel_liftFrom hland ht

end TextMachine
