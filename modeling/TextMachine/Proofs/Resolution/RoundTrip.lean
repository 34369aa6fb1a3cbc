import TextMachine.Proofs.Resolution.Positions

/-!
# Programs that come from streams

A program is the resolution of some stream exactly when it is *well formed*: its registers exist,
its jumps lead elsewhere inside of the program or to its end, and its comments stand at its
positions, with no entry that holds nothing. For such a program lifting succeeds, and what it gives
resolves to the program again (`resolve_image`).

Lifting and resolving walk through a program in step, so each part of the round trip is an induction
on the operations that are left: the positions of the labels (`labelPositions_liftFrom`), the
operations (`resolveOps_liftFrom`) and the comments (`textsAt_resolveComments_liftFrom`).
-/

namespace TextMachine

/-! ## Well-formed programs -/

/-- An operation makes sense at position `here` of a program with `size` operations: its register is
not 0, and if it is a jump it leads to another position of the program or to its end. -/
def Op.WellFormedAt (size here : Nat) : Op → Prop
  | write _ r => r.index ≠ 0
  | case r => r.index ≠ 0
  | forward d => 1 ≤ d ∧ here + d ≤ size
  | backward d => 1 ≤ d ∧ d ≤ here ∧ here - d ≤ size

/-- The operations from position `here` on make sense where they stand. -/
def OpsWellFormed (size : Nat) : (here : Nat) → List Op → Prop
  | _, [] => True
  | here, op :: rest => op.WellFormedAt size here ∧ OpsWellFormed size (here + 1) rest

/-- No position has an entry without texts. -/
def Comments.NoEmptyEntry (c : Comments) : Prop :=
  ∀ k, c.get? k ≠ some []

/-- What resolving can give. -/
structure Program.WellFormed (p : Program) : Prop where
  ops : OpsWellFormed p.size 0 p.ops
  /-- Comments stand before the operations and after the last one. -/
  keys : ∀ k texts, p.comments.get? k = some texts → k ≤ p.size
  texts : p.comments.NoEmptyEntry

theorem Reg.some_eq_some_zero_iff {r : Reg} : some r = some ⟨0⟩ ↔ r.index = 0 := by
  rw [Option.some.injEq, Reg.mk.injEq]

/-- A checked register is kept as it is. -/
theorem Reg.resolve_bind_eq_ite (r : Reg) (f : Reg → Op) :
    (do return some (f (← r.resolve)) : Except ResolveError (Option Op)) =
      if some r = some ⟨0⟩ then .error .zeroRegister else .ok (some (f r)) := by
  unfold Reg.resolve
  simp only [some_eq_some_zero_iff]
  split <;> rfl

namespace Op

theorem wellFormedAt_between {size here target : Nat} (hne : target ≠ here)
    (hsize : target ≤ size) : (between here target).WellFormedAt size here := by
  unfold between
  split
  next hlt =>
    show 1 ≤ target - here ∧ here + (target - here) ≤ size
    omega
  next hlt =>
    show 1 ≤ here - target ∧ here - target ≤ here ∧ here - (here - target) ≤ size
    omega

/-- The register of an operation, if it has one. -/
def reg? : Op → Option Reg
  | write _ r => some r
  | case r => some r
  | forward _ => none
  | backward _ => none

/-- An operation at position `here` that is a jump leads to another position of the program or to
its end. Nothing is said about registers. -/
def LandsAt (size here : Nat) (op : Op) : Prop :=
  ∀ target, op.target? here = some target → target ≠ here ∧ 0 ≤ target ∧ target ≤ size

theorem wellFormedAt_iff {size here : Nat} {op : Op} :
    op.WellFormedAt size here ↔ op.LandsAt size here ∧ op.reg? ≠ some ⟨0⟩ := by
  -- what is not a jump lands
  have hreg : ∀ r : Reg, r.index ≠ 0 ↔
      (∀ target : Int, none = some target → target ≠ here ∧ 0 ≤ target ∧ target ≤ size) ∧
        some r ≠ some ⟨0⟩ := by
    intro r
    rw [Ne, Ne, Reg.some_eq_some_zero_iff]
    exact (and_iff_right nofun).symm
  cases op with
  | write s r => exact hreg r
  | case r => exact hreg r
  | forward d =>
    simp only [WellFormedAt, LandsAt, target?, reg?, Option.some.injEq, forall_eq', ne_eq,
      reduceCtorEq, not_false_eq_true, and_true]
    omega
  | backward d =>
    simp only [WellFormedAt, LandsAt, target?, reg?, Option.some.injEq, forall_eq', ne_eq,
      reduceCtorEq, not_false_eq_true, and_true]
    omega

/-- An operation that lands is symbolic already, or a jump between two positions. -/
theorem LandsAt.jump_or {size here : Nat} {op : Op} (h : op.LandsAt size here) :
    (op.target? here = none ∧ ∀ positions, (op.lift here).resolve positions here =
      if op.reg? = some ⟨0⟩ then .error .zeroRegister else .ok (some op)) ∨
    ∃ target : Nat, target ≠ here ∧ target ≤ size ∧ op.target? here = some (target : Int) ∧
      op.reg? = none ∧ op = between here target ∧ op.lift here = .jump (.atPosition target) := by
  cases op with
  | write s r => exact .inl ⟨rfl, fun _ => Reg.resolve_bind_eq_ite r (.write s)⟩
  | case r => exact .inl ⟨rfl, fun _ => Reg.resolve_bind_eq_ite r .case⟩
  | forward d =>
    obtain ⟨hne, -, hsize⟩ := h _ rfl
    refine .inr ⟨here + d, by omega, by omega, rfl, rfl, ?_, rfl⟩
    rw [between, if_pos (by omega), Nat.add_sub_cancel_left]
  | backward d =>
    obtain ⟨hne, hstart, hsize⟩ := h _ rfl
    have htarget : (here - d : Int) = (here - d : Nat) := by omega
    refine .inr ⟨here - d, by omega, by omega, congrArg some htarget, rfl, ?_, rfl⟩
    rw [between, if_neg (by omega), Nat.sub_sub_self (by omega)]

end Op

/-- The jumps among the operations from position `here` on all land. -/
def OpsLand (size : Nat) : (here : Nat) → List Op → Prop
  | _, [] => True
  | here, op :: rest => op.LandsAt size here ∧ OpsLand size (here + 1) rest

theorem OpsWellFormed.land {size here : Nat} {ops : List Op} (h : OpsWellFormed size here ops) :
    OpsLand size here ops ∧ ¬ ∃ op ∈ ops, op.reg? = some ⟨0⟩ := by
  induction ops generalizing here with
  | nil => exact ⟨trivial, nofun⟩
  | cons op rest ih =>
    obtain ⟨hop, hreg⟩ := Op.wellFormedAt_iff.1 h.1
    obtain ⟨hrest, hregs⟩ := ih h.2
    refine ⟨⟨hop, hrest⟩, ?_⟩
    rw [List.exists_mem_cons_iff, not_or]
    exact ⟨hreg, hregs⟩

/-! ## Resolving gives well-formed programs -/

theorem opsWellFormed_append {size here : Nat} {a b : List Op} :
    OpsWellFormed size here (a ++ b) ↔
      OpsWellFormed size here a ∧ OpsWellFormed size (here + a.length) b := by
  induction a generalizing here with
  | nil => simp [OpsWellFormed]
  | cons op rest ih =>
    rw [List.cons_append, OpsWellFormed, ih, OpsWellFormed, and_assoc, List.length_cons,
      Nat.add_assoc, Nat.add_comm 1]

theorem opsWellFormed_of_resolveOps {positions : List (Label × Nat)} {size here : Nat}
    {code : List Instruction} {ops : List Op}
    (hsize : ∀ l target, positions.lookup l = some target → target ≤ size)
    (h : resolveOps positions here code = .ok ops) : OpsWellFormed size here ops := by
  induction code generalizing here ops with
  | nil =>
    cases h
    trivial
  | cons i rest ih =>
    obtain ⟨op?, later, hi, hrest, rfl⟩ := resolveOps_cons_eq_ok_iff.1 h
    -- the rest starts as many positions later as the instruction has operations
    rw [opsWellFormed_append, Instruction.length_toList_resolve hi]
    refine ⟨?_, ih hrest⟩
    cases i with
    | write s r =>
      obtain ⟨hr, rfl⟩ := Instruction.resolve_write_eq_ok_iff.1 hi
      exact ⟨hr, trivial⟩
    | case r =>
      obtain ⟨hr, rfl⟩ := Instruction.resolve_case_eq_ok_iff.1 hi
      exact ⟨hr, trivial⟩
    | jump l =>
      obtain ⟨target, hl, hne, rfl⟩ := Instruction.resolve_jump_eq_ok_iff.1 hi
      exact ⟨Op.wellFormedAt_between hne (hsize l target hl), trivial⟩
    | setLabel l =>
      cases hi
      trivial
    | comment text =>
      cases hi
      trivial
    | nop =>
      cases hi
      trivial

/-- Comments are kept at positions of their stream, and no entry is without texts. -/
theorem of_get?_resolveComments {here k : Nat} {code : List Instruction} {texts : List String}
    (h : (resolveComments here code).get? k = some texts) :
    here ≤ k ∧ k ≤ here + extent code ∧ texts ≠ [] := by
  induction code generalizing here texts with
  | nil => cases h
  | cons i rest ih =>
    -- whatever is not a comment only moves the position
    have hskip : (resolveComments (here + i.width) rest).get? k = some texts →
        here ≤ k ∧ k ≤ here + extent (i :: rest) ∧ texts ≠ [] := by
      intro hrest
      obtain ⟨hstart, hend, htexts⟩ := ih hrest
      rw [extent_cons]
      exact ⟨by omega, by omega, htexts⟩
    cases i with
    | comment text =>
      rw [resolveComments, Comments.prepend, Comments.get?_modify] at h
      split at h
      next hk =>
        cases h
        refine ⟨by omega, by omega, List.cons_ne_nil _ _⟩
      next hk => exact hskip h
    | write s r => exact hskip h
    | case r => exact hskip h
    | jump l => exact hskip h
    | setLabel l => exact hskip h
    | nop => exact hskip h

theorem wellFormed_of_resolve {code : List Instruction} {p : Program}
    (h : resolve code = .ok p) : p.WellFormed := by
  obtain ⟨-, hops, hcomments⟩ := resolve_eq_ok_iff.1 h
  have hsize : p.size = extent code := length_ops_of_resolve h
  refine ⟨opsWellFormed_of_resolveOps ?_ hops, ?_, ?_⟩
  · intro l target hl
    have hend := (le_of_mem_labelPositions (mem_of_lookup_eq_some hl)).2
    rwa [Nat.zero_add, ← hsize] at hend
  · intro k texts hk
    rw [← hcomments] at hk
    obtain ⟨-, hend, -⟩ := of_get?_resolveComments hk
    omega
  · intro k hk
    rw [← hcomments] at hk
    exact (of_get?_resolveComments hk).2.2 rfl

/-! ## The labels of a lifted program -/

/-- The targets of the jumps from position `here` on. -/
def targetsFrom (here : Nat) : List Op → List Nat
  | [] => []
  | op :: rest => (op.target? here).toList.map Int.toNat ++ targetsFrom (here + 1) rest

theorem Program.checkTarget_eq_ok {size here target : Nat} (hne : target ≠ here)
    (hsize : target ≤ size) : checkTarget size here target = .ok target := by
  rw [checkTarget, if_neg (by omega), if_pos (by omega), Int.toNat_natCast]

/-- Jumps that land all have labels. -/
theorem Program.jumpTargets_eq_ok {size here : Nat} {ops : List Op}
    (h : OpsLand size here ops) : jumpTargets size here ops = .ok (targetsFrom here ops) := by
  induction ops generalizing here with
  | nil => rfl
  | cons op rest ih =>
    rw [jumpTargets, targetsFrom, ih h.2]
    rcases h.1.jump_or with ⟨hnone, -⟩ | ⟨target, hne, hsize, htarget, -⟩
    · rw [hnone]
      rfl
    · rw [htarget]
      show (do return (← checkTarget size here target) :: targetsFrom (here + 1) rest) = _
      rw [checkTarget_eq_ok hne hsize]
      rfl

theorem le_of_mem_targetsFrom {size here target : Nat} {ops : List Op}
    (h : OpsLand size here ops) (hmem : target ∈ targetsFrom here ops) : target ≤ size := by
  induction ops generalizing here with
  | nil => cases hmem
  | cons op rest ih =>
    rw [targetsFrom, List.mem_append] at hmem
    rcases hmem with hop | hrest
    · rcases h.1.jump_or with ⟨hnone, -⟩ | ⟨t, -, hsize, htarget, -⟩
      · rw [hnone] at hop
        cases hop
      · rw [htarget] at hop
        simp only [Option.toList_some, List.map_cons, Int.toNat_natCast, List.map_nil,
          List.mem_singleton] at hop
        exact hop ▸ hsize
    · exact ih h.2 hrest

theorem Label.atPosition_injective : Function.Injective Label.atPosition := by
  have hcounter : ∀ i, (Label.atPosition i).counter = i := Label.counter_numbered "@" (by decide)
  intro i j h
  rw [← hcounter i, h, hcounter j]

section Lifting

variable {p : Program} {targets : List Nat} {here : Nat}

theorem extent_map_comment (texts : List String) : extent (texts.map .comment) = 0 := by
  induction texts with
  | nil => rfl
  | cons text rest ih => rw [List.map_cons, extent_cons, ih, Instruction.width_comment]

theorem labelPositions_map_comment (here : Nat) (texts : List String) :
    labelPositions here (texts.map .comment) = [] := by
  induction texts with
  | nil => rfl
  | cons text rest ih => exact ih

theorem extent_liftMarkers (index : Nat) : extent (p.liftMarkers targets index) = 0 := by
  rw [Program.liftMarkers, extent_append, extent_map_comment]
  split <;> rfl

/-- The labels of those of the given positions that are targets. -/
def labelsAmong (targets indices : List Nat) : List (Label × Nat) :=
  (indices.filter (· ∈ targets)).map fun i => (.atPosition i, i)

theorem labelsAmong_cons (targets : List Nat) (i : Nat) (rest : List Nat) :
    labelsAmong targets (i :: rest) =
      (if i ∈ targets then [(.atPosition i, i)] else []) ++ labelsAmong targets rest := by
  by_cases hmem : i ∈ targets <;> simp [labelsAmong, hmem]

theorem labelPositions_liftMarkers :
    labelPositions here (p.liftMarkers targets here) =
      if here ∈ targets then [(.atPosition here, here)] else [] := by
  rw [Program.liftMarkers, labelPositions_append, labelPositions_map_comment, extent_map_comment]
  split <;> rfl

/-- Every target up to the end of the program has its label where it belongs. -/
theorem labelPositions_liftFrom (ops : List Op) :
    labelPositions here (p.liftFrom targets here ops) =
      labelsAmong targets (List.range' here (ops.length + 1)) := by
  induction ops generalizing here with
  | nil =>
    rw [Program.liftFrom, labelPositions_liftMarkers, List.length_nil, List.range'_succ,
      labelsAmong_cons, List.range'_zero]
    exact (List.append_nil _).symm
  | cons op rest ih =>
    -- a lifted operation is real and no label, so it moves both sides on by one
    have hlift : ∀ later, labelPositions here (op.lift here :: later) =
        labelPositions (here + 1) later := by
      intro later
      cases op <;> rfl
    rw [Program.liftFrom, labelPositions_append, extent_liftMarkers, labelPositions_liftMarkers,
      Nat.add_zero, hlift, ih, List.length_cons, List.range'_succ (n := rest.length + 1),
      labelsAmong_cons]

theorem nodup_definedLabels_liftFrom (ops : List Op) :
    (definedLabels (p.liftFrom targets here ops)).Nodup := by
  rw [← map_fst_labelPositions here, labelPositions_liftFrom, labelsAmong, List.map_map]
  have hindices : (List.range' here (ops.length + 1)).Nodup := List.nodup_range'
  exact (hindices.filter _).map Label.atPosition_injective

/-- The label of a target is found at the target. -/
theorem lookup_labelPositions_liftFrom {ops : List Op} {target : Nat} (hmem : target ∈ targets)
    (hsize : target ≤ ops.length) :
    (labelPositions 0 (p.liftFrom targets 0 ops)).lookup (.atPosition target) = some target := by
  refine lookup_eq_some_of_mem (e := (Label.atPosition target, target)) ?_ ?_
  · rw [map_fst_labelPositions]
    exact nodup_definedLabels_liftFrom ops
  · rw [labelPositions_liftFrom]
    refine List.mem_map.2 ⟨target, ?_, rfl⟩
    simp [hmem]
    omega

/-! ## The operations of a lifted program -/

/-- Markers have no operations. -/
theorem resolveOps_append_of_extent_eq_zero {positions : List (Label × Nat)}
    {markers : List Instruction} (h : extent markers = 0) (later : List Instruction) :
    resolveOps positions here (markers ++ later) = resolveOps positions here later := by
  induction markers with
  | nil => rfl
  | cons i rest ih =>
    rw [extent_cons] at h
    have hwidth : i.width = 0 := by omega
    have hi : i.resolve positions here = .ok none := by
      cases i <;> first | rfl | cases hwidth
    rw [List.cons_append, resolveOps, hi, hwidth, Nat.add_zero, ih (by omega)]
    exact bind_pure (resolveOps positions here later)

/-- The lifted operations become the operations that they were lifted from, unless one of them has
register 0. -/
theorem resolveOps_liftFrom {positions : List (Label × Nat)} {size : Nat} {ops : List Op}
    (hops : OpsLand size here ops)
    (hlabels : ∀ t ∈ targetsFrom here ops, positions.lookup (.atPosition t) = some t) :
    resolveOps positions here (p.liftFrom targets here ops) =
      if ∃ op ∈ ops, op.reg? = some ⟨0⟩ then .error .zeroRegister else .ok ops := by
  induction ops generalizing here with
  | nil =>
    have hmarkers : resolveOps positions here (p.liftMarkers targets here ++ []) = .ok [] :=
      resolveOps_append_of_extent_eq_zero (extent_liftMarkers here) []
    rwa [List.append_nil] at hmarkers
  | cons op rest ih =>
    have hwidth : (op.lift here).width = 1 := by cases op <;> rfl
    have hop : (op.lift here).resolve positions here =
        if op.reg? = some ⟨0⟩ then .error .zeroRegister else .ok (some op) := by
      rcases hops.1.jump_or with ⟨-, hresolve⟩ | ⟨target, hne, -, htarget, hreg, hbetween, hlift⟩
      · exact hresolve positions
      · rw [hlift, hreg, if_neg nofun]
        refine Instruction.resolve_jump_eq_ok_iff.2 ⟨target, ?_, hne, congrArg some hbetween⟩
        apply hlabels
        simp [targetsFrom, htarget]
    have hrest := ih hops.2 fun t ht => hlabels t (List.mem_append_right _ ht)
    rw [Program.liftFrom, resolveOps_append_of_extent_eq_zero (extent_liftMarkers here),
      resolveOps, hop, hwidth, hrest]
    -- a register 0 decides, wherever it stands
    simp only [List.exists_mem_cons_iff]
    by_cases hreg : op.reg? = some ⟨0⟩
    · rw [if_pos hreg, if_pos (Or.inl hreg)]
      rfl
    · rw [if_neg hreg]
      by_cases hregs : ∃ op ∈ rest, op.reg? = some ⟨0⟩
      · rw [if_pos hregs, if_pos (Or.inr hregs)]
        rfl
      · rw [if_neg hregs, if_neg (not_or.2 ⟨hreg, hregs⟩)]
        rfl

/-! ## The comments of a lifted program -/

theorem Comments.textsAt_prepend (c : Comments) (k j : Nat) (text : String) :
    (c.prepend k text).textsAt j = if j = k then text :: c.textsAt j else c.textsAt j := by
  rw [textsAt, prepend, get?_modify]
  split
  next h =>
    subst h
    rfl
  next h => rfl

theorem Comments.get?_eq_ite {c : Comments} (h : c.NoEmptyEntry) (k : Nat) :
    c.get? k = if c.textsAt k = [] then none else some (c.textsAt k) := by
  rw [textsAt]
  cases hk : c.get? k with
  | none => rfl
  | some texts =>
    have hne : texts ≠ [] := fun hnil => h k (hnil ▸ hk)
    rw [Option.getD_some, if_neg hne]

/-- Collections without empty entries are equal if they have the same texts everywhere. -/
theorem Comments.ext_textsAt {c d : Comments} (hc : c.NoEmptyEntry) (hd : d.NoEmptyEntry)
    (h : ∀ k, c.textsAt k = d.textsAt k) : c = d := by
  apply Comments.ext_get?
  intro k
  rw [get?_eq_ite hc, get?_eq_ite hd, h]

theorem textsAt_resolveComments_liftMarkers (k : Nat) (later : List Instruction) :
    (resolveComments here (p.liftMarkers targets here ++ later)).textsAt k =
      (if k = here then p.commentsAt here else []) ++ (resolveComments here later).textsAt k := by
  have hlabel : resolveComments here
      ((if here ∈ targets then [.setLabel (.atPosition here)] else []) ++ later) =
        resolveComments here later := by
    split <;> rfl
  rw [Program.liftMarkers, List.append_assoc]
  -- the comments of the position are put back one by one, the last one first
  induction p.commentsAt here with
  | nil => simp [hlabel]
  | cons text rest ih =>
    rw [List.map_cons, List.cons_append, resolveComments, Comments.textsAt_prepend, ih]
    split <;> rfl

/-- Lifting takes over the comments of every position that it passes. -/
theorem textsAt_resolveComments_liftFrom (ops : List Op) (k : Nat) :
    (resolveComments here (p.liftFrom targets here ops)).textsAt k =
      if here ≤ k ∧ k ≤ here + ops.length then p.commentsAt k else [] := by
  induction ops generalizing here with
  | nil =>
    have hmarkers : (resolveComments here (p.liftMarkers targets here ++ [])).textsAt k = _ :=
      textsAt_resolveComments_liftMarkers k []
    rw [List.append_nil] at hmarkers
    rw [Program.liftFrom, hmarkers]
    by_cases hk : k = here
    · subst hk
      rw [if_pos rfl, if_pos ⟨Nat.le_refl k, Nat.le_refl k⟩]
      exact List.append_nil _
    · rw [if_neg hk, if_neg (by rw [List.length_nil]; omega)]
      rfl
  | cons op rest ih =>
    have hlift : ∀ later, resolveComments here (op.lift here :: later) =
        resolveComments (here + 1) later := by
      intro later
      cases op <;> rfl
    rw [Program.liftFrom, textsAt_resolveComments_liftMarkers, hlift, ih, List.length_cons]
    -- the texts of a position come from its own markers, since the rest starts past it
    by_cases hk : k = here
    · subst hk
      rw [if_pos rfl, if_neg (by omega), if_pos (by omega), List.append_nil]
    · rw [if_neg hk, List.nil_append]
      congr 1
      simp only [eq_iff_iff]
      omega

end Lifting

/-! ## The round trip -/

namespace Comments

/-- The entries up to position `size`, without those that hold nothing. -/
def upTo (c : Comments) (size : Nat) : Comments :=
  ⟨c.entries.filter fun e => e.1 ≤ size ∧ e.2 ≠ [], c.sorted.filter _⟩

theorem get?_eq_some_iff {c : Comments} {k : Nat} {texts : List String} :
    c.get? k = some texts ↔ (k, texts) ∈ c.entries := by
  constructor
  · exact mem_of_lookup_eq_some
  · have hkeys : (c.entries.map Prod.fst).Nodup :=
      List.pairwise_map.2 (c.sorted.imp Nat.ne_of_lt)
    exact lookup_eq_some_of_mem (e := (k, texts)) hkeys

theorem get?_upTo_eq_some_iff {c : Comments} {size k : Nat} {texts : List String} :
    (c.upTo size).get? k = some texts ↔ c.get? k = some texts ∧ k ≤ size ∧ texts ≠ [] := by
  rw [get?_eq_some_iff, get?_eq_some_iff, upTo, List.mem_filter, decide_eq_true_iff]

theorem noEmptyEntry_upTo (c : Comments) (size : Nat) : (c.upTo size).NoEmptyEntry :=
  fun _ hk => (get?_upTo_eq_some_iff.1 hk).2.2 rfl

theorem textsAt_upTo (c : Comments) (size k : Nat) :
    (c.upTo size).textsAt k = if k ≤ size then c.textsAt k else [] := by
  cases hk : (c.upTo size).get? k with
  | some texts =>
    obtain ⟨hc, hle, -⟩ := get?_upTo_eq_some_iff.1 hk
    rw [textsAt, textsAt, hk, hc, if_pos hle]
  | none =>
    -- an entry that is not kept is past the position or holds nothing
    have hdropped : k ≤ size → c.textsAt k = [] := by
      intro hle
      rw [textsAt]
      cases hc : c.get? k with
      | none => rfl
      | some texts =>
        by_contra hne
        rw [get?_upTo_eq_some_iff.2 ⟨hc, hle, hne⟩] at hk
        cases hk
    rw [textsAt, hk]
    split
    next hle => exact (hdropped hle).symm
    next => rfl

theorem upTo_eq_self {c : Comments} {size : Nat} (hentries : c.NoEmptyEntry)
    (hkeys : ∀ k texts, c.get? k = some texts → k ≤ size) : c.upTo size = c := by
  apply ext_get?
  intro k
  apply Option.ext
  intro texts
  rw [get?_upTo_eq_some_iff]
  refine and_iff_left_of_imp fun hk => ⟨hkeys k texts hk, ?_⟩
  rintro rfl
  exact hentries k hk

end Comments

theorem resolveComments_liftFrom (p : Program) (targets : List Nat) :
    resolveComments 0 (p.liftFrom targets 0 p.ops) = p.comments.upTo p.size := by
  have hresolved : (resolveComments 0 (p.liftFrom targets 0 p.ops)).NoEmptyEntry :=
    fun k hk => (of_get?_resolveComments hk).2.2 rfl
  apply Comments.ext_textsAt hresolved (Comments.noEmptyEntry_upTo _ _)
  intro k
  rw [textsAt_resolveComments_liftFrom, Comments.textsAt_upTo, Nat.zero_add]
  simp only [Nat.zero_le, true_and]
  rfl

/-- A program whose jumps land lifts to a stream that resolves to it, but for registers that do not
exist and comments that stand nowhere. -/
theorem Program.resolve_lift {p : Program} (h : OpsLand p.size 0 p.ops) :
    resolve (p.liftFrom (targetsFrom 0 p.ops) 0 p.ops) =
      if ∃ op ∈ p.ops, op.reg? = some ⟨0⟩ then .error .zeroRegister
      else .ok ⟨p.ops, p.comments.upTo p.size⟩ := by
  have hlabels : ∀ t ∈ targetsFrom 0 p.ops,
      (labelPositions 0 (p.liftFrom (targetsFrom 0 p.ops) 0 p.ops)).lookup (.atPosition t) =
        some t :=
    fun t ht => lookup_labelPositions_liftFrom ht (le_of_mem_targetsFrom h ht)
  rw [resolve_of_nodup (nodup_definedLabels_liftFrom p.ops), resolveOps_liftFrom h hlabels,
    resolveComments_liftFrom]
  split <;> rfl

/-- A well-formed program lifts to a stream that resolves to it. -/
theorem Program.WellFormed.resolve_lift {p : Program} (h : p.WellFormed) :
    ∃ code, p.lift = .ok code ∧ resolve code = .ok p := by
  obtain ⟨hland, hregs⟩ := h.ops.land
  refine ⟨p.liftFrom (targetsFrom 0 p.ops) 0 p.ops, ?_, ?_⟩
  · rw [lift, jumpTargets_eq_ok hland]
    rfl
  · rw [Program.resolve_lift hland, if_neg hregs, Comments.upTo_eq_self h.texts h.keys]

/-- **The image of resolution.** The programs that come from streams are exactly the well-formed
ones, and exactly those that lifting and resolving leaves as they are. -/
theorem resolve_image (p : Program) :
    ((∃ code, resolve code = .ok p) ↔ p.WellFormed) ∧
      (p.WellFormed ↔ ∃ code, p.lift = .ok code ∧ resolve code = .ok p) := by
  refine ⟨⟨?_, ?_⟩, ⟨?_, ?_⟩⟩
  · rintro ⟨code, hcode⟩
    exact wellFormed_of_resolve hcode
  · intro h
    obtain ⟨code, -, hcode⟩ := h.resolve_lift
    exact ⟨code, hcode⟩
  · intro h
    exact h.resolve_lift
  · rintro ⟨code, -, hcode⟩
    exact wellFormed_of_resolve hcode

end TextMachine
