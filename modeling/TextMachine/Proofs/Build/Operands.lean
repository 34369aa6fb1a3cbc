import TextMachine.Build.Library

/-!
# Refused operands

What is wrong with the operands of a routine, all of it, in the order in which it is noticed
(`Pool.operandFaults`). A routine fails exactly if there is something wrong, and then over the first
fault (`Build.perform_checkOperands`, `Build.perform_routine_of_fault`).
-/

namespace TextMachine

/-- Fail over the first of the faults, if there is one. -/
def failFirst {ε : Type} : List ε → Except ε Unit
  | [] => .ok ()
  | e :: _ => .error e

theorem failFirst_eq_error_iff {ε : Type} {faults : List ε} {e : ε} :
    failFirst faults = .error e ↔ faults.head? = some e := by
  cases faults <;> simp [failFirst]

/-- What is wrong with the operands of a routine: operand by operand, that it does not exist or is
reserved for temporaries, and then that it is also one of the operands after it. -/
def Pool.operandFaults (p : Pool) : List Reg → List BuildError
  | [] => []
  | r :: rest =>
    (if r.index = 0 then [.zeroRegister] else if p.Reserves r then [.reserved r] else []) ++
      (if r ∈ rest then [.aliased r] else []) ++ p.operandFaults rest

/-- What is wrong with a routine on the given registers: their number, and then the registers. -/
def Pool.routineFaults (p : Pool) (r : Routine) (regs : List Reg) : List BuildError :=
  (if regs.length = r.arity then [] else [.arity r regs.length]) ++ p.operandFaults regs

/-- A register that exists and is not reserved is only looked for among those after it. -/
theorem Pool.operandFaults_cons_of_usable {p : Pool} {r : Reg} (h : r.index ≠ 0 ∧ ¬ p.Reserves r)
    (rest : List Reg) :
    p.operandFaults (r :: rest) =
      (if r ∈ rest then [.aliased r] else []) ++ p.operandFaults rest := by
  rw [operandFaults, if_neg h.1, if_neg h.2, List.nil_append]

theorem Pool.operandFaults_eq_nil_iff {p : Pool} {regs : List Reg} :
    p.operandFaults regs = [] ↔
      (∀ r ∈ regs, r.index ≠ 0 ∧ ¬ p.Reserves r) ∧ regs.Nodup := by
  induction regs with
  | nil => simp [operandFaults]
  | cons r rest ih =>
    have hunusable : (if r.index = 0 then [BuildError.zeroRegister]
        else if p.Reserves r then [.reserved r] else []) = [] ↔
          r.index ≠ 0 ∧ ¬ p.Reserves r := by
      by_cases hzero : r.index = 0 <;> simp [hzero]
    have haliased : (if r ∈ rest then [BuildError.aliased r] else []) = [] ↔ r ∉ rest := by
      simp
    rw [operandFaults, List.append_eq_nil_iff, List.append_eq_nil_iff, hunusable, haliased, ih,
      List.forall_mem_cons, List.nodup_cons]
    exact ⟨fun ⟨⟨h, hr⟩, hrest, hnodup⟩ => ⟨⟨h, hrest⟩, hr, hnodup⟩,
      fun ⟨⟨h, hrest⟩, hr, hnodup⟩ => ⟨⟨h, hr⟩, hrest, hnodup⟩⟩

theorem Routine.call?_eq_none_iff {ρ : Type} {r : Routine} {operands : List ρ} :
    r.call? operands = none ↔ operands.length ≠ r.arity := by
  rcases operands with _ | ⟨a, _ | ⟨b, _ | ⟨c, rest⟩⟩⟩ <;> cases r <;> simp [call?, arity]

theorem Routine.operands_of_call?_eq_some {ρ : Type} {r : Routine} {operands : List ρ}
    {c : Call ρ} (h : r.call? operands = some c) : c.routine = r ∧ c.operands = operands := by
  unfold call? at h
  split at h <;> simp at h <;> subst h <;> exact ⟨rfl, rfl⟩

/-- There is nothing wrong with a routine if it is a call with nothing wrong with its operands. -/
theorem Pool.exists_call_of_routineFaults_eq_nil {p : Pool} {r : Routine} {regs : List Reg}
    (h : p.routineFaults r regs = []) :
    ∃ c, r.call? regs = some c ∧ p.operandFaults c.operands = [] := by
  obtain ⟨harity, hoperands⟩ := List.append_eq_nil_iff.1 h
  cases hcall : r.call? regs with
  | none =>
    rw [if_neg (Routine.call?_eq_none_iff.1 hcall)] at harity
    cases harity
  | some c =>
    obtain ⟨-, rfl⟩ := Routine.operands_of_call?_eq_some hcall
    exact ⟨c, rfl, hoperands⟩

/-- The builder at the moment when a routine has been announced by a comment. A wrong number of
registers is not. -/
def Builder.announce (b : Builder) (r : Routine) (regs : List Reg) : Builder :=
  match r.call? regs with
  | none => b
  | some c => b.append (.comment c.header)

namespace Build

variable {σ : Type} {b : Builder} {s : σ}

theorem perform_checkOperands (hguard : b.guarded = true) (regs : List Reg) :
    (checkOperands regs).perform b s = (failFirst (b.pool.operandFaults regs), b, s) := by
  induction regs with
  | nil => rfl
  | cons r rest ih =>
    rw [checkOperands, perform_bind, perform_check, Builder.check, Pool.operandFaults]
    by_cases hzero : r.index = 0
    · simp [hzero, failFirst]
    · by_cases hreserved : b.pool.Reserves r
      · simp [hzero, hreserved, hguard, failFirst]
      · by_cases hmem : r ∈ rest
        · simp [hzero, hreserved, hmem, failFirst]
        · simp [hzero, hreserved, hmem, ih]

/-- A call checks its operands before it does anything. -/
theorem perform_call_of_fault {c : Call Reg} {e : BuildError} (hguard : b.guarded = true)
    (h : (b.pool.operandFaults c.operands).head? = some e) :
    (call c).perform b s = (.error e, b, s) := by
  obtain ⟨body, hcall⟩ : ∃ body : Unit → Build σ Unit,
      call c = checkOperands c.operands >>= body := by
    cases c <;> exact ⟨_, rfl⟩
  rw [hcall, perform_bind, perform_checkOperands hguard, failFirst_eq_error_iff.2 h]

/-- A wrong number of registers is noticed first, a bad register when the comment is written. -/
theorem perform_routine_of_fault {r : Routine} {regs : List Reg} {e : BuildError}
    (hguard : b.guarded = true) (h : (b.pool.routineFaults r regs).head? = some e) :
    (routine r regs).perform b s = (.error e, b.announce r regs, s) := by
  unfold routine Builder.announce
  unfold Pool.routineFaults at h
  cases hcall : r.call? regs with
  | none =>
    rw [if_neg (Routine.call?_eq_none_iff.1 hcall)] at h
    obtain rfl := Option.some.inj h
    rfl
  | some c =>
    have hlength : regs.length = r.arity := by
      refine Decidable.not_not.1 fun hne => ?_
      rw [Routine.call?_eq_none_iff.2 hne] at hcall
      cases hcall
    obtain ⟨-, rfl⟩ := Routine.operands_of_call?_eq_some hcall
    rw [if_pos hlength, List.nil_append] at h
    show (do comment c.header; call c).perform b s = _
    rw [perform_bind, perform_comment]
    exact perform_call_of_fault hguard h

end Build

end TextMachine
