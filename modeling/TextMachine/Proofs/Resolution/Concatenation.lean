import TextMachine.Proofs.Resolution.RoundTrip

/-!
# Streams one after another

A jump is resolved to a distance, so the operations of a stream are the same wherever it starts, as
long as its labels move along with it (`resolveOps_shift`). Two streams that define no label in
common can therefore be put one after the other: each keeps its operations
(`exists_joins_of_resolve`), and the comments of the second move past the operations of the first.
Where they meet, the comments that close the first stream come before those that open the second.
-/

namespace TextMachine

/-! ## Operations -/

/-- A jump is resolved to the way from it to its target. -/
theorem Op.between_add (here target shift : Nat) :
    Op.between (here + shift) (target + shift) = Op.between here target := by
  unfold Op.between
  rw [Nat.add_sub_add_right, Nat.add_sub_add_right]
  by_cases h : here < target
  · rw [if_pos h, if_pos (Nat.add_lt_add_right h shift)]
  · rw [if_neg h, if_neg fun hlt => h (Nat.lt_of_add_lt_add_right hlt)]

section Shift

variable {positions moved : List (Label × Nat)} {here shift : Nat}
  (hfound : ∀ l target, positions.lookup l = some target →
    moved.lookup l = some (target + shift))
include hfound

/-- An instruction becomes the same operation when it is moved along with the labels. -/
theorem Instruction.resolve_shift {i : Instruction} {op? : Option Op}
    (h : i.resolve positions here = .ok op?) : i.resolve moved (here + shift) = .ok op? := by
  cases i with
  | write s r => exact resolve_write_eq_ok_iff.2 (resolve_write_eq_ok_iff.1 h)
  | case r => exact resolve_case_eq_ok_iff.2 (resolve_case_eq_ok_iff.1 h)
  | jump l =>
    obtain ⟨target, hl, hne, rfl⟩ := resolve_jump_eq_ok_iff.1 h
    refine resolve_jump_eq_ok_iff.2 ⟨target + shift, hfound l target hl, ?_, ?_⟩
    · omega
    · rw [Op.between_add]
  | setLabel l => exact h
  | comment text => exact h
  | nop => exact h

/-- A stream has the same operations when it is moved along with the labels. -/
theorem resolveOps_shift {code : List Instruction} {ops : List Op}
    (h : resolveOps positions here code = .ok ops) :
    resolveOps moved (here + shift) code = .ok ops := by
  induction code generalizing here ops with
  | nil => exact h
  | cons i rest ih =>
    obtain ⟨op?, later, hi, hrest, rfl⟩ := resolveOps_cons_eq_ok_iff.1 h
    have hlater := ih hrest
    rw [Nat.add_right_comm] at hlater
    exact resolveOps_cons_eq_ok_iff.2 ⟨op?, later, i.resolve_shift hfound hi, hlater, rfl⟩

end Shift

theorem resolveOps_append {positions : List (Label × Nat)} {here : Nat}
    {first second : List Instruction} {ops later : List Op}
    (hfirst : resolveOps positions here first = .ok ops)
    (hsecond : resolveOps positions (here + extent first) second = .ok later) :
    resolveOps positions here (first ++ second) = .ok (ops ++ later) := by
  induction first generalizing here ops with
  | nil =>
    cases hfirst
    exact hsecond
  | cons i rest ih =>
    obtain ⟨op?, between, hi, hrest, rfl⟩ := resolveOps_cons_eq_ok_iff.1 hfirst
    rw [extent_cons, ← Nat.add_assoc] at hsecond
    refine resolveOps_cons_eq_ok_iff.2 ⟨op?, between ++ later, hi, ih hrest hsecond, ?_⟩
    exact List.append_assoc _ _ _

/-- The labels of a stream move along with it. -/
theorem lookup_labelPositions_add (here shift : Nat) (code : List Instruction) (l : Label) :
    (labelPositions (here + shift) code).lookup l =
      ((labelPositions here code).lookup l).map (· + shift) := by
  induction code generalizing here with
  | nil => rfl
  | cons i rest ih =>
    have hskip : (labelPositions (here + shift + i.width) rest).lookup l =
        ((labelPositions (here + i.width) rest).lookup l).map (· + shift) := by
      rw [Nat.add_right_comm]
      exact ih _
    cases i with
    | setLabel l' =>
      rw [labelPositions, labelPositions, lookup_cons_eq_ite, lookup_cons_eq_ite]
      split
      · rfl
      · exact hskip
    | write s r => exact hskip
    | case r => exact hskip
    | jump l' => exact hskip
    | comment text => exact hskip
    | nop => exact hskip

/-! ## Comments -/

/-- The comments of a stream move along with it. -/
theorem get?_resolveComments_add (here shift : Nat) (code : List Instruction) (k : Nat) :
    (resolveComments (here + shift) code).get? (k + shift) =
      (resolveComments here code).get? k := by
  induction code generalizing here k with
  | nil => rfl
  | cons i rest ih =>
    have hskip : ∀ j, (resolveComments (here + shift + i.width) rest).get? (j + shift) =
        (resolveComments (here + i.width) rest).get? j := by
      intro j
      rw [Nat.add_right_comm]
      exact ih _ j
    cases i with
    | comment text =>
      simp only [resolveComments, Comments.prepend, Comments.get?_modify, Comments.textsAt,
        Nat.add_right_cancel_iff]
      rw [ih here here, ih here k]
    | write s r => exact hskip k
    | case r => exact hskip k
    | jump l => exact hskip k
    | setLabel l => exact hskip k
    | nop => exact hskip k

/-- At every position the comments of the first stream come before those of the second. -/
theorem get?_resolveComments_append (here : Nat) (first second : List Instruction) (k : Nat) :
    (resolveComments here (first ++ second)).get? k =
      Option.merge (· ++ ·) ((resolveComments here first).get? k)
        ((resolveComments (here + extent first) second).get? k) := by
  induction first generalizing here k with
  | nil => exact Option.merge_none_left.symm
  | cons i rest ih =>
    rw [extent_cons, ← Nat.add_assoc]
    cases i with
    | comment text =>
      simp only [List.cons_append, resolveComments, Comments.prepend, Comments.get?_modify,
        Comments.textsAt, Instruction.width_comment, Nat.add_zero, ih]
      by_cases hk : k = here
      · subst hk
        rw [if_pos rfl, if_pos rfl]
        cases (resolveComments k rest).get? k <;>
          cases (resolveComments (k + extent rest) second).get? k <;> rfl
      · rw [if_neg hk, if_neg hk]
    | write s r => exact ih _ k
    | case r => exact ih _ k
    | jump l => exact ih _ k
    | setLabel l => exact ih _ k
    | nop => exact ih _ k

/-! ## Whole streams -/

/-- `whole` is the program of two streams one after the other, where `p` and `q` are those of each:
the operations of `p` and then of `q`, and the comments likewise, those of `q` moved past the
operations of `p`. -/
structure Program.Joins (p q whole : Program) : Prop where
  ops : whole.ops = p.ops ++ q.ops
  before : ∀ k < p.size, whole.comments.get? k = p.comments.get? k
  /-- The comments that close `p`, and then those that open `q`. -/
  between : whole.comments.get? p.size =
    Option.merge (· ++ ·) (p.comments.get? p.size) (q.comments.get? 0)
  after : ∀ k, 0 < k → whole.comments.get? (p.size + k) = q.comments.get? k

section Streams

variable {a b : List Instruction} {p q : Program} (ha : resolve a = .ok p)
  (hb : resolve b = .ok q) (hlabels : ∀ l ∈ definedLabels a, l ∉ definedLabels b)
include ha hb

/-- Where the comments of the two streams end up. -/
theorem joins_of_resolveComments {whole : Program} (hops : whole.ops = p.ops ++ q.ops)
    (hcomments : whole.comments = resolveComments 0 (a ++ b)) : p.Joins q whole := by
  have hsize : p.size = extent a := length_ops_of_resolve ha
  obtain ⟨-, -, hp⟩ := resolve_eq_ok_iff.1 ha
  obtain ⟨-, -, hq⟩ := resolve_eq_ok_iff.1 hb
  have hsecond : ∀ k, (resolveComments (0 + extent a) b).get? (k + p.size) = q.comments.get? k := by
    intro k
    rw [← hsize, get?_resolveComments_add, hq]
  refine ⟨hops, fun k hk => ?_, ?_, fun k hk => ?_⟩
  · -- before the end of the first stream there are no comments of the second
    have hnone : (resolveComments (0 + extent a) b).get? k = none := by
      rw [Option.eq_none_iff_forall_ne_some]
      intro texts htexts
      have hle := (of_get?_resolveComments htexts).1
      omega
    rw [hcomments, get?_resolveComments_append, hnone, Option.merge_none_right, hp]
  · have hopen := hsecond 0
    rw [Nat.zero_add p.size] at hopen
    rw [hcomments, get?_resolveComments_append, hp, hopen]
  · -- past its end there are none of the first
    have hnone : p.comments.get? (k + p.size) = none := by
      rw [Option.eq_none_iff_forall_ne_some, ← hp]
      intro texts htexts
      have hle := (of_get?_resolveComments htexts).2.1
      omega
    rw [hcomments, Nat.add_comm, get?_resolveComments_append, hp, hnone, Option.merge_none_left,
      hsecond]

include hlabels

/-- Two streams that define no label in common can be put one after the other. -/
theorem exists_joins_of_resolve : ∃ whole, resolve (a ++ b) = .ok whole ∧ p.Joins q whole := by
  obtain ⟨hnodup, hops, -⟩ := resolve_eq_ok_iff.1 ha
  obtain ⟨hnodup', hops', -⟩ := resolve_eq_ok_iff.1 hb
  let positions := labelPositions 0 a ++ labelPositions (0 + extent a) b
  -- the labels of the first stream stay where they are
  have hfirst : ∀ l target, (labelPositions 0 a).lookup l = some target →
      positions.lookup l = some (target + 0) := by
    intro l target hl
    rw [List.lookup_append, hl, Option.some_or, Nat.add_zero]
  -- those of the second are not found among them, and are moved
  have hsecond : ∀ l target, (labelPositions 0 b).lookup l = some target →
      positions.lookup l = some (target + extent a) := by
    intro l target hl
    have hnone : (labelPositions 0 a).lookup l = none := by
      rw [Option.eq_none_iff_forall_ne_some]
      intro target' hl'
      exact hlabels l (mem_definedLabels_of_lookup hl') (mem_definedLabels_of_lookup hl)
    rw [List.lookup_append, hnone, Option.none_or, lookup_labelPositions_add, hl, Option.map_some]
  have hall : resolveOps positions 0 (a ++ b) = .ok (p.ops ++ q.ops) :=
    resolveOps_append (resolveOps_shift hfirst hops) (resolveOps_shift hsecond hops')
  refine ⟨{ ops := p.ops ++ q.ops, comments := resolveComments 0 (a ++ b) }, ?_,
    joins_of_resolveComments ha hb rfl rfl⟩
  rw [resolve_eq_ok_iff, definedLabels_append, labelPositions_append, List.nodup_append]
  refine ⟨⟨hnodup, hnodup', ?_⟩, hall, rfl⟩
  rintro l hl _ hl' rfl
  exact hlabels l hl hl'

end Streams

end TextMachine
