import TextMachine.Proofs.Resolution.Positions

/-!
# Why a stream does not resolve

A stream whose labels are defined once fails to resolve because of its first instruction that has no
operation, and in the way of that instruction (`resolveOps_eq_error_iff`). `Instruction.FailsWith`
lists the ways: register 0, a label that is defined nowhere, and a jump to its own position.

The last of them can be told from the stream itself, without counting positions. A label stands
where a jump to it stands exactly when it is defined before the jump and only markers lie between
the two (`lookup_eq_some_extent_iff`): a label defined later has at least the jump before it.
-/

namespace TextMachine

/-- A sequence of two steps fails when the first does, or the second after it. -/
theorem bind_eq_error_iff {ε α β : Type} {x : Except ε α} {f : α → Except ε β} {e : ε} :
    (x >>= f) = .error e ↔ x = .error e ∨ ∃ a, x = .ok a ∧ f a = .error e := by
  cases x with
  | error e' =>
    show (Except.error e' : Except ε β) = .error e ↔ _
    simp
  | ok a =>
    show f a = .error e ↔ _
    simp

/-! ## Instructions without an operation -/

/-- What is wrong with an instruction at position `here`. -/
def Instruction.FailsWith (positions : List (Label × Nat)) (here : Nat) (e : ResolveError) :
    Instruction → Prop
  | write _ r => r.index = 0 ∧ e = .zeroRegister
  | case r => r.index = 0 ∧ e = .zeroRegister
  | jump l =>
    (positions.lookup l = none ∧ e = .unresolvedLabel l) ∨
      (positions.lookup l = some here ∧ e = .selfJump l)
  | setLabel _ => False
  | comment _ => False
  | nop => False

theorem Reg.resolve_eq_error_iff {r : Reg} {e : ResolveError} :
    r.resolve = .error e ↔ r.index = 0 ∧ e = .zeroRegister := by
  unfold Reg.resolve
  split
  next h => simp [h, eq_comm]
  next h => simp [h]

theorem Label.resolve_eq_error_iff {l : Label} {here target : Nat} {e : ResolveError} :
    l.resolve here target = .error e ↔ target = here ∧ e = .selfJump l := by
  unfold Label.resolve
  split
  next h =>
    simp only [reduceCtorEq, false_iff]
    omega
  next h =>
    split
    next h' =>
      simp only [reduceCtorEq, false_iff]
      omega
    next h' =>
      have heq : target = here := by omega
      simp [heq, eq_comm]

theorem Instruction.resolve_eq_error_iff {positions : List (Label × Nat)} {here : Nat}
    {i : Instruction} {e : ResolveError} :
    i.resolve positions here = .error e ↔ i.FailsWith positions here e := by
  -- a checked register is kept as it is, so only the check itself can fail
  have hregister : ∀ (r : Reg) (f : Reg → Op),
      (do return some (f (← r.resolve)) : Except ResolveError (Option Op)) = .error e ↔
        r.index = 0 ∧ e = .zeroRegister := by
    intro r f
    rw [bind_eq_error_iff, Reg.resolve_eq_error_iff]
    refine or_iff_left ?_
    rintro ⟨_, -, h⟩
    cases h
  cases i with
  | write s r => exact hregister r (.write s)
  | case r => exact hregister r .case
  | jump l =>
    show Instruction.resolve positions here (.jump l) = .error e ↔
      (positions.lookup l = none ∧ e = .unresolvedLabel l) ∨
        (positions.lookup l = some here ∧ e = .selfJump l)
    rw [Instruction.resolve]
    cases hl : positions.lookup l with
    | none =>
      show (Except.error (.unresolvedLabel l) : Except ResolveError (Option Op)) = .error e ↔ _
      simp [eq_comm]
    | some target =>
      show (do return some (← l.resolve here target)) = _ ↔ _
      rw [bind_eq_error_iff, Label.resolve_eq_error_iff]
      simp only [reduceCtorEq, false_and, false_or, Option.some.injEq]
      refine or_iff_left ?_
      rintro ⟨_, -, h⟩
      cases h
  | setLabel l => simp [Instruction.resolve, Instruction.FailsWith]
  | comment text => simp [Instruction.resolve, Instruction.FailsWith]
  | nop => simp [Instruction.resolve, Instruction.FailsWith]

theorem Instruction.resolves_iff_forall_not_failsWith {positions : List (Label × Nat)} {here : Nat}
    {i : Instruction} : i.Resolves positions here ↔ ∀ e, ¬ i.FailsWith positions here e := by
  rw [Instruction.resolves_iff]
  simp only [← Instruction.resolve_eq_error_iff]
  cases i.resolve positions here with
  | ok op? => simp
  | error e => simp

/-! ## Streams that do not resolve -/

/-- The first instruction without an operation decides. -/
theorem resolveOps_eq_error_iff {positions : List (Label × Nat)} {here : Nat}
    {code : List Instruction} {e : ResolveError} :
    resolveOps positions here code = .error e ↔
      ∃ j i, code[j]? = some i ∧ i.FailsWith positions (here + extent (code.take j)) e ∧
        Resolves positions here (code.take j) := by
  induction code generalizing here with
  | nil =>
    refine iff_of_false nofun ?_
    rintro ⟨j, i, hj, -⟩
    cases hj
  | cons first rest ih =>
    have hlater : (∃ op?, first.resolve positions here = .ok op? ∧
        (do return op?.toList ++ (← resolveOps positions (here + first.width) rest)) =
          Except.error e) ↔
        first.Resolves positions here ∧
          resolveOps positions (here + first.width) rest = .error e := by
      rw [Instruction.resolves_iff]
      constructor
      · rintro ⟨op?, hop, herr⟩
        rcases bind_eq_error_iff.1 herr with herr | ⟨_, -, herr⟩
        · exact ⟨⟨op?, hop⟩, herr⟩
        · cases herr
      · rintro ⟨⟨op?, hop⟩, herr⟩
        exact ⟨op?, hop, bind_eq_error_iff.2 (.inl herr)⟩
    rw [resolveOps, bind_eq_error_iff, Instruction.resolve_eq_error_iff, hlater, ih]
    constructor
    · rintro (hfirst | ⟨hfirst, j, i, hj, hfails, hbefore⟩)
      · exact ⟨0, first, rfl, hfirst, trivial⟩
      · refine ⟨j + 1, i, hj, ?_, hfirst, hbefore⟩
        rwa [List.take_succ_cons, extent_cons, ← Nat.add_assoc]
    · rintro ⟨j, i, hj, hfails, hbefore⟩
      cases j with
      | zero =>
        cases hj
        exact .inl hfails
      | succ j =>
        rw [List.take_succ_cons, extent_cons, ← Nat.add_assoc] at hfails
        exact .inr ⟨hbefore.1, j, i, hj, hfails, hbefore.2⟩

/-- Labels that are defined twice apart, a stream fails as its instructions do. -/
theorem resolve_eq_error_iff {code : List Instruction} {e : ResolveError}
    (hnodup : (definedLabels code).Nodup) :
    resolve code = .error e ↔ resolveOps (labelPositions 0 code) 0 code = .error e := by
  rw [resolve_of_nodup hnodup, bind_eq_error_iff]
  refine or_iff_left ?_
  rintro ⟨_, -, h⟩
  cases h

/-- What is wrong with the instruction at index `i` of a stream. -/
def FailsAt (code : List Instruction) (i : Nat) (e : ResolveError) : Prop :=
  ∃ instr, code[i]? = some instr ∧
    instr.FailsWith (labelPositions 0 code) (extent (code.take i)) e

/-- The stream up to index `i` resolves if nothing is wrong with it. -/
theorem resolves_take_iff {code : List Instruction} {i : Nat} :
    Resolves (labelPositions 0 code) 0 (code.take i) ↔ ∀ k < i, ∀ e, ¬ FailsAt code k e := by
  constructor
  · rintro hresolves k hk e ⟨instr, hinstr, hfails⟩
    have htaken : (code.take i)[k]? = some instr := by
      rw [List.getElem?_take, if_pos hk, hinstr]
    have hat := hresolves.of_getElem? htaken
    rw [List.take_take, Nat.min_eq_left (Nat.le_of_lt hk), Nat.zero_add] at hat
    exact Instruction.resolves_iff_forall_not_failsWith.1 hat e hfails
  · intro hnone
    apply allAt_of_getElem?
    intro k instr hinstr
    rw [List.getElem?_take] at hinstr
    split at hinstr
    next hk =>
      rw [List.take_take, Nat.min_eq_left (Nat.le_of_lt hk), Nat.zero_add,
        Instruction.resolves_iff_forall_not_failsWith]
      exact fun e hfails => hnone k hk e ⟨instr, hinstr, hfails⟩
    next => cases hinstr

theorem not_failsAt_of_resolve {code : List Instruction} {p : Program} {i : Nat}
    {e : ResolveError} (h : resolve code = .ok p) : ¬ FailsAt code i e := by
  intro hfails
  have hresolves : Resolves (labelPositions 0 code) 0 (code.take code.length) := by
    rw [List.take_length]
    exact resolves_iff.2 ⟨p.ops, (resolve_eq_ok_iff.1 h).2.1⟩
  have hlt : i < code.length := by
    obtain ⟨instr, hi, -⟩ := hfails
    exact (List.getElem?_eq_some_iff.1 hi).1
  exact resolves_take_iff.1 hresolves i hlt e hfails

/-- A stream whose labels are defined once fails as the first of its instructions that does. -/
theorem resolve_eq_error_iff_first {code : List Instruction} {e : ResolveError}
    (hnodup : (definedLabels code).Nodup) :
    resolve code = .error e ↔
      ∃ i, FailsAt code i e ∧ ∀ k < i, ∀ e', ¬ FailsAt code k e' := by
  rw [resolve_eq_error_iff hnodup, resolveOps_eq_error_iff]
  simp only [resolves_take_iff, Nat.zero_add]
  constructor
  · rintro ⟨i, instr, hinstr, hfails, hfirst⟩
    exact ⟨i, ⟨instr, hinstr, hfails⟩, hfirst⟩
  · rintro ⟨i, ⟨instr, hinstr, hfails⟩, hfirst⟩
    exact ⟨i, instr, hinstr, hfails, hfirst⟩

/-! ## Jumps to their own position -/

theorem mem_definedLabels_iff {code : List Instruction} {l : Label} :
    l ∈ definedLabels code ↔ .setLabel l ∈ code := by
  unfold definedLabels
  rw [List.mem_filterMap]
  constructor
  · rintro ⟨i, hi, hl⟩
    unfold Instruction.definedLabel? at hl
    split at hl
    next => exact Option.some.inj hl ▸ hi
    next => cases hl
  · intro h
    exact ⟨_, h, rfl⟩

/-- A label is defined as often as its definition occurs. -/
theorem count_setLabel (code : List Instruction) (l : Label) :
    code.count (.setLabel l) = (definedLabels code).count l := by
  rw [definedLabels, List.count_filterMap]
  apply List.countP_congr
  intro i _
  cases i <;> simp [Instruction.definedLabel?]

theorem count_setLabel_eq_one {code : List Instruction} {l : Label}
    (hnodup : (definedLabels code).Nodup) (hmem : l ∈ definedLabels code) :
    code.count (.setLabel l) = 1 := by
  rw [count_setLabel]
  exact List.count_eq_one_of_mem hnodup hmem

/-- A label stands at the extent of what comes before its definition. -/
theorem lookup_labelPositions_eq_some_iff {code : List Instruction} {l : Label} {target : Nat}
    (hnodup : (definedLabels code).Nodup) :
    (labelPositions 0 code).lookup l = some target ↔
      ∃ j, code[j]? = some (.setLabel l) ∧ extent (code.take j) = target := by
  have hfound : ∀ j, code[j]? = some (.setLabel l) →
      (labelPositions 0 code).lookup l = some (extent (code.take j)) := by
    intro j hj
    have hplaced : (labelPositions 0 code).lookup l = some (0 + extent (code.take j)) :=
      (placed_labelPositions hnodup).of_getElem? hj
    rwa [Nat.zero_add] at hplaced
  constructor
  · intro h
    have hmem : .setLabel l ∈ code := mem_definedLabels_iff.1 (mem_definedLabels_of_lookup h)
    obtain ⟨j, hj⟩ := List.mem_iff_getElem?.1 hmem
    refine ⟨j, hj, ?_⟩
    rw [hfound j hj] at h
    exact Option.some.inj h
  · rintro ⟨j, hj, rfl⟩
    exact hfound j hj

/-- At index `i` a stream jumps to a label that is defined before, with nothing but markers in
between. -/
def IdleJumpAt (code : List Instruction) (i : Nat) (l : Label) : Prop :=
  code[i]? = some (.jump l) ∧
    ∃ j, j < i ∧ code[j]? = some (.setLabel l) ∧
      ∀ k instr, j < k → k < i → code[k]? = some instr → instr.width = 0

/-- Only markers take no position. -/
theorem extent_eq_zero_iff {code : List Instruction} :
    extent code = 0 ↔ ∀ instr ∈ code, instr.width = 0 := by
  induction code with
  | nil => simp
  | cons i rest ih => rw [extent_cons, Nat.add_eq_zero_iff, ih, List.forall_mem_cons]

/-- The extent of a stream stays the same over markers, and over nothing else. -/
theorem extent_take_eq_iff {code : List Instruction} {j i : Nat} (hji : j ≤ i) :
    extent (code.take j) = extent (code.take i) ↔
      ∀ k instr, j ≤ k → k < i → code[k]? = some instr → instr.width = 0 := by
  obtain ⟨d, rfl⟩ := Nat.exists_eq_add_of_le hji
  rw [List.take_add, extent_append, Nat.left_eq_add, extent_eq_zero_iff]
  constructor
  · intro h k instr hjk hki hk
    apply h
    rw [List.mem_iff_getElem?]
    refine ⟨k - j, ?_⟩
    rw [List.getElem?_take, if_pos (by omega), List.getElem?_drop, Nat.add_sub_of_le hjk, hk]
  · intro h instr hmem
    obtain ⟨k, hk⟩ := List.mem_iff_getElem?.1 hmem
    rw [List.getElem?_take] at hk
    split at hk
    next hlt =>
      rw [List.getElem?_drop] at hk
      exact h (j + k) instr (by omega) (by omega) hk
    next => cases hk

/-- A jump goes to its own position exactly when it is idle. -/
theorem lookup_eq_some_extent_iff {code : List Instruction} {i : Nat} {l : Label}
    (hnodup : (definedLabels code).Nodup) (hjump : code[i]? = some (.jump l)) :
    (labelPositions 0 code).lookup l = some (extent (code.take i)) ↔ IdleJumpAt code i l := by
  rw [lookup_labelPositions_eq_some_iff hnodup]
  constructor
  · rintro ⟨j, hj, hextent⟩
    -- a definition after the jump has the jump before it
    have hji : j < i := by
      refine Nat.lt_of_not_le fun hij => ?_
      rcases Nat.eq_or_lt_of_le hij with rfl | hlt
      · rw [hj] at hjump
        cases hjump
      · cases (extent_take_eq_iff hij).1 hextent.symm i _ (Nat.le_refl i) hlt hjump
    refine ⟨hjump, j, hji, hj, ?_⟩
    intro k instr hjk hki hk
    exact (extent_take_eq_iff (Nat.le_of_lt hji)).1 hextent k instr (Nat.le_of_lt hjk) hki hk
  · rintro ⟨-, j, hji, hj, hmarkers⟩
    refine ⟨j, hj, (extent_take_eq_iff (Nat.le_of_lt hji)).2 ?_⟩
    intro k instr hjk hki hk
    rcases Nat.eq_or_lt_of_le hjk with rfl | hjk
    · rw [hj] at hk
      cases hk
      rfl
    · exact hmarkers k instr hjk hki hk

end TextMachine
