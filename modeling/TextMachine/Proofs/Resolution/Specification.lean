import TextMachine.Proofs.Resolution.Errors
import TextMachine.Proofs.Resolution.RoundTrip

/-!
# What resolution is to do

`Specified code result` says which result a stream of instructions is to have. It speaks about the
stream alone: instructions are given by their index, and a position is the number of real
instructions before an index (`realsBefore`). There is no table of labels in it and no order in
which things are done, except where the first of several defects is asked for.

No stream has two results (`Specified.unique`), and the one that `resolve` gives is among them
(`specified_resolve`). So the specification describes `resolve` completely, errors included
(`resolve_eq_iff_specified`).
-/

namespace TextMachine

/-! ## The specification -/

/-- Whether an instruction becomes an operation. -/
def Instruction.isReal : Instruction → Bool
  | write _ _ => true
  | case _ => true
  | jump _ => true
  | setLabel _ => false
  | comment _ => false
  | nop => false

/-- The number of real instructions before index `i` of a stream. -/
def realsBefore (code : List Instruction) (i : Nat) : Nat :=
  (code.take i).countP Instruction.isReal

/-- Index `i` of a stream defines a label that is defined at an earlier index already. -/
def RepeatsAt (code : List Instruction) (i : Nat) (l : Label) : Prop :=
  code[i]? = some (.setLabel l) ∧ ∃ j < i, code[j]? = some (.setLabel l)

/-- What is wrong with the instruction at index `i`, apart from labels that are defined twice. -/
inductive BadAt (code : List Instruction) (i : Nat) : ResolveError → Prop
  | zeroWrite {s : Symbol} (hi : code[i]? = some (.write s ⟨0⟩)) : BadAt code i .zeroRegister
  | zeroCase (hi : code[i]? = some (.case ⟨0⟩)) : BadAt code i .zeroRegister
  | undefined {l : Label} (hi : code[i]? = some (.jump l)) (hl : .setLabel l ∉ code) :
    BadAt code i (.unresolvedLabel l)
  | selfJump {l : Label} {j : Nat} (hi : code[i]? = some (.jump l))
    (hj : code[j]? = some (.setLabel l)) (hsame : realsBefore code j = realsBefore code i) :
    BadAt code i (.selfJump l)

/-- What the instruction at index `i` becomes. A jump has the distance between its position and that
of its label. -/
inductive BecomesAt (code : List Instruction) (i : Nat) : Op → Prop
  | write {s : Symbol} {r : Reg} (hi : code[i]? = some (.write s r)) : BecomesAt code i (.write s r)
  | case {r : Reg} (hi : code[i]? = some (.case r)) : BecomesAt code i (.case r)
  | forward {l : Label} {j : Nat} (hi : code[i]? = some (.jump l))
    (hj : code[j]? = some (.setLabel l)) (hlt : realsBefore code i < realsBefore code j) :
    BecomesAt code i (.forward (realsBefore code j - realsBefore code i))
  | backward {l : Label} {j : Nat} (hi : code[i]? = some (.jump l))
    (hj : code[j]? = some (.setLabel l)) (hlt : realsBefore code j < realsBefore code i) :
    BecomesAt code i (.backward (realsBefore code i - realsBefore code j))

/-- The texts of the comments with exactly `k` real instructions before them, in the order of the
stream. -/
def textsAfter (code : List Instruction) (k : Nat) : List String :=
  (List.range code.length).filterMap fun i =>
    match code[i]? with
    | some (Instruction.comment text) => if realsBefore code i = k then some text else none
    | _ => none

/-- A program has one operation for each real instruction of a stream, in the same order, and the
comments of the stream at their positions. -/
structure Renders (code : List Instruction) (p : Program) : Prop where
  size : p.size = realsBefore code code.length
  ops : ∀ i instr, code[i]? = some instr → instr.isReal = true →
    ∃ op, p.ops[realsBefore code i]? = some op ∧ BecomesAt code i op
  comments : ∀ k, p.comments.get? k =
    if textsAfter code k = [] then none else some (textsAfter code k)

/-- The result that a stream is to have: its first repeated definition if it has one; else the
error of its first bad instruction if it has one; else the program that renders it. -/
inductive Specified (code : List Instruction) : Except ResolveError Program → Prop
  | duplicate {i : Nat} {l : Label} (hat : RepeatsAt code i l)
    (hfirst : ∀ j < i, ∀ l', ¬ RepeatsAt code j l') : Specified code (.error (.duplicateLabel l))
  | bad {i : Nat} {e : ResolveError} (honce : ∀ j l, ¬ RepeatsAt code j l) (hat : BadAt code i e)
    (hfirst : ∀ j < i, ∀ e', ¬ BadAt code j e') : Specified code (.error e)
  | program {p : Program} (honce : ∀ j l, ¬ RepeatsAt code j l) (hgood : ∀ i e, ¬ BadAt code i e)
    (hrenders : Renders code p) : Specified code (.ok p)

/-! ## At most one result -/

/-- Of two indices that are the first with some property, neither is before the other. -/
theorem eq_of_first {P : Nat → Prop} {i j : Nat} (hi : P i) (hbefore : ∀ k < i, ¬ P k) (hj : P j)
    (hbefore' : ∀ k < j, ¬ P k) : i = j := by
  rcases Nat.lt_trichotomy i j with hlt | heq | hlt
  · exact absurd hi (hbefore' i hlt)
  · exact heq
  · exact absurd hj (hbefore j hlt)

theorem realsBefore_zero (code : List Instruction) : realsBefore code 0 = 0 := rfl

theorem realsBefore_succ {code : List Instruction} {i : Nat} {instr : Instruction}
    (hi : code[i]? = some instr) :
    realsBefore code (i + 1) = realsBefore code i + if instr.isReal = true then 1 else 0 := by
  rw [realsBefore, realsBefore, List.take_add_one, hi, List.countP_append]
  exact congrArg _ List.countP_singleton

/-- Every position of the program is that of a real instruction. -/
theorem exists_real_of_lt {code : List Instruction} {n k : Nat} (hn : n ≤ code.length)
    (hk : k < realsBefore code n) :
    ∃ i instr, code[i]? = some instr ∧ instr.isReal = true ∧ realsBefore code i = k := by
  induction n with
  | zero =>
    rw [realsBefore_zero] at hk
    cases hk
  | succ n ih =>
    have hlt : n < code.length := hn
    have hget : code[n]? = some code[n] := List.getElem?_eq_getElem hlt
    rw [realsBefore_succ hget] at hk
    by_cases hsmall : k < realsBefore code n
    · exact ih (Nat.le_of_succ_le hn) hsmall
    · -- the count goes up only at a real instruction, and from `k`
      split at hk
      next hreal => exact ⟨n, code[n], hget, hreal, by omega⟩
      next => omega

theorem eq_of_jump {code : List Instruction} {i : Nat} {l l' : Label}
    (hi : code[i]? = some (.jump l)) (hi' : code[i]? = some (.jump l')) : l = l' :=
  Instruction.jump.inj (Option.some.inj (hi.symm.trans hi'))

/-- At most one thing is wrong with an instruction. -/
theorem BadAt.unique {code : List Instruction} {i : Nat} {e e' : ResolveError}
    (h : BadAt code i e) (h' : BadAt code i e') : e = e' := by
  cases h with
  | zeroWrite hi => cases h' <;> simp_all
  | zeroCase hi => cases h' <;> simp_all
  | undefined hi hl =>
    cases h' with
    | zeroWrite hi' => simp_all
    | zeroCase hi' => simp_all
    | undefined hi' => rw [eq_of_jump hi hi']
    | selfJump hi' hj' =>
      obtain rfl := eq_of_jump hi hi'
      exact absurd (List.mem_of_getElem? hj') hl
  | selfJump hi hj =>
    cases h' with
    | zeroWrite hi' => simp_all
    | zeroCase hi' => simp_all
    | undefined hi' hl' =>
      obtain rfl := eq_of_jump hi hi'
      exact absurd (List.mem_of_getElem? hj) hl'
    | selfJump hi' => rw [eq_of_jump hi hi']

section Unique

variable {code : List Instruction} (honce : ∀ j l, ¬ RepeatsAt code j l)
include honce

theorem eq_of_setLabel {j j' : Nat} {l : Label} (hj : code[j]? = some (.setLabel l))
    (hj' : code[j']? = some (.setLabel l)) : j = j' := by
  rcases Nat.lt_trichotomy j j' with hlt | heq | hlt
  · exact absurd ⟨hj', j, hlt, hj⟩ (honce j' l)
  · exact heq
  · exact absurd ⟨hj, j', hlt, hj'⟩ (honce j l)

theorem BecomesAt.unique {i : Nat} {op op' : Op} (h : BecomesAt code i op)
    (h' : BecomesAt code i op') : op = op' := by
  -- two jumps at one index go to one label, and so to one index
  have hlabel : ∀ {l l' : Label} {j j' : Nat}, code[i]? = some (.jump l) →
      code[i]? = some (.jump l') → code[j]? = some (.setLabel l) →
        code[j']? = some (.setLabel l') → j = j' := by
    intro l l' j j' hi hi' hj hj'
    obtain rfl := eq_of_jump hi hi'
    exact eq_of_setLabel honce hj hj'
  cases h with
  | write hi => cases h' <;> simp_all
  | case hi => cases h' <;> simp_all
  | forward hi hj hlt =>
    cases h' with
    | write hi' => simp_all
    | case hi' => simp_all
    | forward hi' hj' => rw [hlabel hi hi' hj hj']
    | backward hi' hj' hlt' =>
      obtain rfl := hlabel hi hi' hj hj'
      exact absurd hlt (Nat.lt_asymm hlt')
  | backward hi hj hlt =>
    cases h' with
    | write hi' => simp_all
    | case hi' => simp_all
    | forward hi' hj' hlt' =>
      obtain rfl := hlabel hi hi' hj hj'
      exact absurd hlt (Nat.lt_asymm hlt')
    | backward hi' hj' => rw [hlabel hi hi' hj hj']

theorem Renders.unique {p q : Program} (hp : Renders code p) (hq : Renders code q) : p = q := by
  have hops : p.ops = q.ops := by
    apply List.ext_getElem?
    intro k
    by_cases hk : k < realsBefore code code.length
    · obtain ⟨i, instr, hi, hreal, rfl⟩ := exists_real_of_lt (Nat.le_refl _) hk
      obtain ⟨op, hop, hbecomes⟩ := hp.ops i instr hi hreal
      obtain ⟨op', hop', hbecomes'⟩ := hq.ops i instr hi hreal
      rw [hop, hop', hbecomes.unique honce hbecomes']
    · have hp' : p.ops.length ≤ k := Nat.le_trans (Nat.le_of_eq hp.size) (Nat.not_lt.1 hk)
      have hq' : q.ops.length ≤ k := Nat.le_trans (Nat.le_of_eq hq.size) (Nat.not_lt.1 hk)
      rw [List.getElem?_eq_none hp', List.getElem?_eq_none hq']
  have hcomments : p.comments = q.comments :=
    Comments.ext_get? fun k => (hp.comments k).trans (hq.comments k).symm
  obtain ⟨ops, comments⟩ := p
  obtain rfl : ops = q.ops := hops
  obtain rfl : comments = q.comments := hcomments
  rfl

end Unique

/-- No stream is to have two results. -/
theorem Specified.unique {code : List Instruction} {a b : Except ResolveError Program}
    (ha : Specified code a) (hb : Specified code b) : a = b := by
  cases ha with
  | duplicate hat hfirst =>
    cases hb with
    | duplicate hat' hfirst' =>
      obtain rfl := eq_of_first (P := fun i => ∃ l, RepeatsAt code i l) ⟨_, hat⟩
        (fun k hk ⟨l, h⟩ => hfirst k hk l h) ⟨_, hat'⟩ fun k hk ⟨l, h⟩ => hfirst' k hk l h
      obtain rfl : _ = _ := Instruction.setLabel.inj (Option.some.inj (hat.1.symm.trans hat'.1))
      rfl
    | bad honce => exact absurd hat (honce _ _)
    | program honce => exact absurd hat (honce _ _)
  | bad honce hat hfirst =>
    cases hb with
    | duplicate hat' => exact absurd hat' (honce _ _)
    | bad _ hat' hfirst' =>
      obtain rfl := eq_of_first (P := fun i => ∃ e, BadAt code i e) ⟨_, hat⟩
        (fun k hk ⟨e, h⟩ => hfirst k hk e h) ⟨_, hat'⟩ fun k hk ⟨e, h⟩ => hfirst' k hk e h
      rw [hat.unique hat']
    | program _ hgood => exact absurd hat (hgood _ _)
  | program honce hgood hrenders =>
    cases hb with
    | duplicate hat' => exact absurd hat' (honce _ _)
    | bad _ hat' => exact absurd hat' (hgood _ _)
    | program _ _ hrenders' => rw [hrenders.unique honce hrenders']

/-! ## The result of resolution -/

theorem extent_eq_countP (code : List Instruction) :
    extent code = code.countP Instruction.isReal := by
  induction code with
  | nil => rfl
  | cons i rest ih =>
    have hwidth : i.width = if i.isReal = true then 1 else 0 := by cases i <;> rfl
    rw [extent_cons, List.countP_cons, ih, hwidth, Nat.add_comm]

/-- Positions are counted alike. -/
theorem realsBefore_eq_extent (code : List Instruction) (i : Nat) :
    realsBefore code i = extent (code.take i) :=
  (extent_eq_countP _).symm

/-! ### Labels -/

theorem not_repeatsAt_of_nodup {code : List Instruction} (hnodup : (definedLabels code).Nodup)
    (i : Nat) (l : Label) : ¬ RepeatsAt code i l := by
  rintro ⟨hi, j, hlt, hj⟩
  rw [← List.take_append_drop i code, definedLabels_append, List.nodup_append] at hnodup
  have hbefore : l ∈ definedLabels (code.take i) := by
    apply mem_definedLabels_iff.2
    apply List.mem_of_getElem? (i := j)
    rw [List.getElem?_take, if_pos hlt, hj]
  have hafter : l ∈ definedLabels (code.drop i) := by
    apply mem_definedLabels_iff.2
    apply List.mem_of_getElem? (i := 0)
    rw [List.getElem?_drop, Nat.add_zero, hi]
  exact hnodup.2.2 l hbefore l hafter rfl

/-- Index `i` of a stream defines a label that is defined at an earlier index already, or counts as
defined because it is one of `seen`. -/
def RepeatsAfter (seen : List Label) (code : List Instruction) (i : Nat) (l : Label) : Prop :=
  code[i]? = some (.setLabel l) ∧ (l ∈ seen ∨ ∃ j < i, code[j]? = some (.setLabel l))

theorem repeatsAfter_nil {code : List Instruction} {i : Nat} {l : Label} :
    RepeatsAfter [] code i l ↔ RepeatsAt code i l :=
  and_congr_right fun _ => or_iff_right List.not_mem_nil

section Repeats

variable {seen : List Label} {first : Instruction} {rest : List Instruction} {l : Label}

theorem repeatsAfter_cons_zero :
    RepeatsAfter seen (first :: rest) 0 l ↔ first = .setLabel l ∧ l ∈ seen := by
  simp [RepeatsAfter]

/-- What the first instruction defines counts as seen by the others. -/
theorem repeatsAfter_cons_succ {i : Nat} :
    RepeatsAfter seen (first :: rest) (i + 1) l ↔
      RepeatsAfter (first.definedLabel?.toList ++ seen) rest i l := by
  have hfirst : l ∈ first.definedLabel?.toList ↔ first = .setLabel l := by
    cases first <;> simp [Instruction.definedLabel?, eq_comm]
  have hearlier : (∃ j < i + 1, (first :: rest)[j]? = some (.setLabel l)) ↔
      first = .setLabel l ∨ ∃ j < i, rest[j]? = some (.setLabel l) := by
    rw [Nat.exists_lt_succ_left]
    simp
  rw [RepeatsAfter, RepeatsAfter, List.getElem?_cons_succ, hearlier, List.mem_append, hfirst,
    or_assoc, or_left_comm]

theorem firstRepeated?_cons_setLabel {a : Label} :
    firstRepeated? seen (definedLabels (.setLabel a :: rest)) =
      if a ∈ seen then some a else firstRepeated? (a :: seen) (definedLabels rest) := rfl

end Repeats

/-- The label found to be repeated is that of the first repeated definition. -/
theorem exists_first_of_firstRepeated? {seen : List Label} {code : List Instruction} {l : Label}
    (h : firstRepeated? seen (definedLabels code) = some l) :
    ∃ i, RepeatsAfter seen code i l ∧ ∀ j < i, ∀ l', ¬ RepeatsAfter seen code j l' := by
  induction code generalizing seen with
  | nil => cases h
  | cons first rest ih =>
    -- once the first instruction is passed, an index counts from the second one on
    have hlater : (∀ l', ¬ RepeatsAfter seen (first :: rest) 0 l') →
        firstRepeated? (first.definedLabel?.toList ++ seen) (definedLabels rest) = some l →
          ∃ i, RepeatsAfter seen (first :: rest) i l ∧
            ∀ j < i, ∀ l', ¬ RepeatsAfter seen (first :: rest) j l' := by
      intro hzero hrest
      obtain ⟨i, hi, hfirst⟩ := ih hrest
      refine ⟨i + 1, repeatsAfter_cons_succ.2 hi, fun j hj l' => ?_⟩
      cases j with
      | zero => exact hzero l'
      | succ j =>
        rw [repeatsAfter_cons_succ]
        exact hfirst j (Nat.lt_of_succ_lt_succ hj) l'
    cases first with
    | setLabel a =>
      rw [firstRepeated?_cons_setLabel] at h
      split at h
      next hseen =>
        obtain rfl := Option.some.inj h
        exact ⟨0, repeatsAfter_cons_zero.2 ⟨rfl, hseen⟩, nofun⟩
      next hnew =>
        refine hlater (fun l' hzero => ?_) h
        obtain ⟨heq, hseen⟩ := repeatsAfter_cons_zero.1 hzero
        exact hnew (Instruction.setLabel.inj heq ▸ hseen)
    | write s r => exact hlater (fun _ h => nomatch (repeatsAfter_cons_zero.1 h).1) h
    | case r => exact hlater (fun _ h => nomatch (repeatsAfter_cons_zero.1 h).1) h
    | jump l' => exact hlater (fun _ h => nomatch (repeatsAfter_cons_zero.1 h).1) h
    | comment text => exact hlater (fun _ h => nomatch (repeatsAfter_cons_zero.1 h).1) h
    | nop => exact hlater (fun _ h => nomatch (repeatsAfter_cons_zero.1 h).1) h

theorem specified_of_firstRepeated? {code : List Instruction} {l : Label}
    (h : firstRepeated? [] (definedLabels code) = some l) :
    Specified code (.error (.duplicateLabel l)) := by
  obtain ⟨i, hat, hfirst⟩ := exists_first_of_firstRepeated? h
  simp only [repeatsAfter_nil] at hat hfirst
  exact .duplicate hat hfirst

/-! ### Bad instructions -/

theorem lookup_labelPositions_eq_none {code : List Instruction} {l : Label}
    (h : .setLabel l ∉ code) : (labelPositions 0 code).lookup l = none := by
  cases hl : (labelPositions 0 code).lookup l with
  | none => rfl
  | some target => exact absurd (mem_definedLabels_iff.1 (mem_definedLabels_of_lookup hl)) h

/-- The bad instructions are those without an operation. -/
theorem badAt_iff_failsAt {code : List Instruction} (hnodup : (definedLabels code).Nodup)
    {i : Nat} {e : ResolveError} : BadAt code i e ↔ FailsAt code i e := by
  constructor
  · intro h
    cases h with
    | zeroWrite hi => exact ⟨_, hi, rfl, rfl⟩
    | zeroCase hi => exact ⟨_, hi, rfl, rfl⟩
    | undefined hi hl => exact ⟨_, hi, .inl ⟨lookup_labelPositions_eq_none hl, rfl⟩⟩
    | selfJump hi hj hsame =>
      rw [realsBefore_eq_extent, realsBefore_eq_extent] at hsame
      exact ⟨_, hi, .inr ⟨(lookup_labelPositions_eq_some_iff hnodup).2 ⟨_, hj, hsame⟩, rfl⟩⟩
  · rintro ⟨instr, hi, hfails⟩
    cases instr with
    | write s r =>
      obtain ⟨hzero, rfl⟩ := hfails
      obtain rfl : r = ⟨0⟩ := congrArg Reg.mk hzero
      exact .zeroWrite hi
    | case r =>
      obtain ⟨hzero, rfl⟩ := hfails
      obtain rfl : r = ⟨0⟩ := congrArg Reg.mk hzero
      exact .zeroCase hi
    | jump l =>
      rcases hfails with ⟨hnone, rfl⟩ | ⟨hsome, rfl⟩
      · refine .undefined hi fun hmem => ?_
        obtain ⟨j, hj⟩ := List.mem_iff_getElem?.1 hmem
        rw [(lookup_labelPositions_eq_some_iff hnodup).2 ⟨j, hj, rfl⟩] at hnone
        cases hnone
      · obtain ⟨j, hj, hsame⟩ := (lookup_labelPositions_eq_some_iff hnodup).1 hsome
        rw [← realsBefore_eq_extent, ← realsBefore_eq_extent] at hsame
        exact .selfJump hi hj hsame
    | setLabel l => exact hfails.elim
    | comment text => exact hfails.elim
    | nop => exact hfails.elim

/-! ### Operations and comments -/

theorem exists_becomesAt {code : List Instruction} {p : Program} (h : resolve code = .ok p)
    (hgood : ∀ i e, ¬ BadAt code i e) {i : Nat} {instr : Instruction} (hi : code[i]? = some instr)
    (hreal : instr.isReal = true) :
    ∃ op, p.ops[realsBefore code i]? = some op ∧ BecomesAt code i op := by
  have hloaded := (loaded_of_resolve h).of_getElem? hi
  rw [Nat.zero_add, ← realsBefore_eq_extent] at hloaded
  cases instr with
  | write s r => exact ⟨_, hloaded, .write hi⟩
  | case r => exact ⟨_, hloaded, .case hi⟩
  | jump l =>
    refine ⟨_, hloaded, ?_⟩
    have hdefined := mem_definedLabels_of_resolve h (List.mem_of_getElem? hi)
    obtain ⟨j, hj⟩ := List.mem_iff_getElem?.1 (mem_definedLabels_iff.1 hdefined)
    have hplace : labelPlace code l = 0 + extent (code.take j) :=
      (loaded_of_resolve h).of_getElem? hj
    rw [hplace, Nat.zero_add, ← realsBefore_eq_extent, Op.between]
    have hne : realsBefore code j ≠ realsBefore code i :=
      fun hsame => hgood i _ (.selfJump hi hj hsame)
    split
    next hlt => exact .forward hi hj hlt
    next hlt => exact .backward hi hj (by omega)
  | setLabel l => cases hreal
  | comment text => cases hreal
  | nop => cases hreal

/-- The texts of the comments at position `k` of a stream that starts at position `here`. -/
def textsFrom (here : Nat) (code : List Instruction) (k : Nat) : List String :=
  (List.range code.length).filterMap fun i =>
    match code[i]? with
    | some (Instruction.comment text) => if here + realsBefore code i = k then some text else none
    | _ => none

theorem textsFrom_zero (code : List Instruction) (k : Nat) :
    textsFrom 0 code k = textsAfter code k := by
  simp only [textsFrom, textsAfter, Nat.zero_add]

theorem realsBefore_cons_succ (first : Instruction) (rest : List Instruction) (i : Nat) :
    realsBefore (first :: rest) (i + 1) = first.width + realsBefore rest i := by
  rw [realsBefore_eq_extent, realsBefore_eq_extent, List.take_succ_cons, extent_cons]

theorem textsFrom_cons (here : Nat) (first : Instruction) (rest : List Instruction) (k : Nat) :
    textsFrom here (first :: rest) k =
      (match first with
        | .comment text => if here = k then [text] else []
        | _ => []) ++ textsFrom (here + first.width) rest k := by
  rw [textsFrom, List.length_cons, List.range_succ_eq_map, List.filterMap_cons, List.filterMap_map]
  have hrest : (List.range rest.length).filterMap
      ((fun i => match (first :: rest)[i]? with
        | some (Instruction.comment text) =>
          if here + realsBefore (first :: rest) i = k then some text else none
        | _ => none) ∘ Nat.succ) = textsFrom (here + first.width) rest k := by
    simp only [Function.comp_def, Nat.succ_eq_add_one, List.getElem?_cons_succ,
      realsBefore_cons_succ, ← Nat.add_assoc]
    rfl
  rw [hrest]
  cases first with
  | comment text =>
    simp only [List.getElem?_cons_zero, realsBefore_zero, Nat.add_zero]
    split <;> split <;> simp_all
  | write s r => rfl
  | case r => rfl
  | jump l => rfl
  | setLabel l => rfl
  | nop => rfl

theorem textsAt_resolveComments (here : Nat) (code : List Instruction) (k : Nat) :
    (resolveComments here code).textsAt k = textsFrom here code k := by
  induction code generalizing here with
  | nil => rfl
  | cons first rest ih =>
    rw [textsFrom_cons]
    cases first with
    | comment text =>
      rw [resolveComments, Comments.textsAt_prepend, ih]
      by_cases hk : k = here
      · simp [hk]
      · simp [hk, Ne.symm hk]
    | write s r => exact ih _
    | case r => exact ih _
    | jump l => exact ih _
    | setLabel l => exact ih _
    | nop => exact ih _

/-- A program that resolution gives renders its stream. -/
theorem renders_of_resolve {code : List Instruction} {p : Program} (h : resolve code = .ok p)
    (hgood : ∀ i e, ¬ BadAt code i e) : Renders code p where
  size := by
    rw [realsBefore_eq_extent, List.take_length]
    exact length_ops_of_resolve h
  ops _ _ hi hreal := exists_becomesAt h hgood hi hreal
  comments k := by
    rw [Comments.get?_eq_ite (wellFormed_of_resolve h).texts,
      ← (resolve_eq_ok_iff.1 h).2.2, textsAt_resolveComments, textsFrom_zero]

/-! ## Resolution meets its specification -/

theorem specified_resolve (code : List Instruction) : Specified code (resolve code) := by
  cases hrepeated : firstRepeated? [] (definedLabels code) with
  | some l =>
    have hresolve : resolve code = .error (.duplicateLabel l) := by
      rw [resolve, hrepeated]
      rfl
    rw [hresolve]
    exact specified_of_firstRepeated? hrepeated
  | none =>
    have hnodup := (firstRepeated?_eq_none_iff.1 hrepeated).1
    have honce := not_repeatsAt_of_nodup hnodup
    cases hresolve : resolve code with
    | error e =>
      obtain ⟨i, hat, hfirst⟩ := (resolve_eq_error_iff_first hnodup).1 hresolve
      simp only [← badAt_iff_failsAt hnodup] at hat hfirst
      exact .bad honce hat hfirst
    | ok p =>
      have hgood : ∀ i e, ¬ BadAt code i e := by
        intro i e hbad
        exact not_failsAt_of_resolve hresolve ((badAt_iff_failsAt hnodup).1 hbad)
      exact .program honce hgood (renders_of_resolve hresolve hgood)

/-- **The specification of resolution.** A stream has the result that the specification gives it,
and no other. -/
theorem resolve_eq_iff_specified (code : List Instruction)
    (result : Except ResolveError Program) :
    resolve code = result ↔ Specified code result := by
  constructor
  · rintro rfl
    exact specified_resolve code
  · exact (specified_resolve code).unique

end TextMachine
