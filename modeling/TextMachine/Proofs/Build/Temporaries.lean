import TextMachine.Build.Basic
import Mathlib.Logic.Basic

/-!
# Temporaries in order

A pool that only ever gives back the register it handed out last is *filled* up to some register:
from its base on, exactly the registers before that one are in use. The next temporary is then that
register (`Pool.FilledTo.leastFree_eq`), and giving it back undoes the taking of it
(`Pool.release_take`).
-/

namespace TextMachine

/-- Every number before the first gap is that of a register in the list. -/
theorem mem_of_lt_firstGap {first k : Nat} {regs : List Reg} (hk : first ≤ k)
    (hlt : k < firstGap first regs) : (⟨k⟩ : Reg) ∈ regs := by
  induction regs generalizing first with
  | nil =>
    rw [firstGap] at hlt
    omega
  | cons r rest ih =>
    rw [firstGap] at hlt
    split at hlt
    next => exact List.mem_cons_of_mem r (ih hk hlt)
    next =>
      split at hlt
      next heq =>
        -- the first number is taken: it is the one in question, or the search goes on after it
        rcases Nat.eq_or_lt_of_le hk with rfl | hk
        · obtain rfl : r = ⟨first⟩ := congrArg Reg.mk heq
          exact List.mem_cons_self
        · exact List.mem_cons_of_mem r (ih hk hlt)
      next => omega

theorem filter_ne_insertReg {r : Reg} {regs : List Reg} (h : r ∉ regs) :
    (insertReg r regs).filter (· ≠ r) = regs := by
  have hkeep : ∀ s ∈ regs, decide (s ≠ r) = true := by
    intro s hs
    rw [decide_eq_true_eq]
    rintro rfl
    exact h hs
  induction regs with
  | nil => simp [insertReg]
  | cons s rest ih =>
    obtain ⟨hs, hrest⟩ := List.forall_mem_cons.1 hkeep
    unfold insertReg
    split
    next =>
      rw [List.filter_cons_of_neg (by simp), List.filter_eq_self.2 hkeep]
    next =>
      split
      next heq =>
        obtain rfl : r = s := congrArg Reg.mk heq
        exact absurd List.mem_cons_self h
      next =>
        have hnot : r ∉ rest := fun hmem => h (List.mem_cons_of_mem s hmem)
        rw [List.filter_cons, if_pos hs, ih hnot hrest]

namespace Pool

theorem leastFree_not_mem (p : Pool) : p.leastFree ∉ p.live :=
  firstGap_not_mem p.sorted

/-- Giving back the register that was just taken undoes the taking. -/
theorem release_take (p : Pool) : p.take.2.release p.leastFree = p := by
  obtain ⟨base, live, sorted⟩ := p
  simp only [release, take, Pool.mk.injEq, true_and]
  exact filter_ne_insertReg (leastFree_not_mem ⟨base, live, sorted⟩)

/-- From the base on, exactly the registers before `temp` are in use. -/
def FilledTo (p : Pool) (temp : Nat) : Prop :=
  p.base ≤ temp ∧ ∀ r : Reg, r ∈ p.live ↔ p.base ≤ r.index ∧ r.index < temp

theorem filledTo_of_live_eq_nil {p : Pool} (h : p.live = []) : p.FilledTo p.base := by
  refine ⟨Nat.le_refl _, fun r => ?_⟩
  rw [h]
  simp only [List.not_mem_nil, false_iff]
  omega

theorem startingAt_filledTo (base : Nat) : (startingAt base).FilledTo (max base 1) :=
  filledTo_of_live_eq_nil rfl

variable {p : Pool} {temp : Nat}

theorem FilledTo.leastFree_eq (h : p.FilledTo temp) : p.leastFree = ⟨temp⟩ := by
  obtain ⟨hbase, hlive⟩ := h
  have hfree := (hlive p.leastFree).not.1 p.leastFree_not_mem
  have hle : p.base ≤ p.leastFree.index := le_firstGap p.base p.live
  have hge : p.leastFree.index ≤ temp := by
    -- were it larger, `temp` itself would be in use
    refine Nat.le_of_not_lt fun hlt => ?_
    have hmem := mem_of_lt_firstGap hbase hlt
    have := ((hlive ⟨temp⟩).1 hmem).2
    simp only at this
    omega
  have heq : p.leastFree.index = temp := by omega
  exact congrArg Reg.mk heq

theorem FilledTo.take (h : p.FilledTo temp) : p.take.2.FilledTo (temp + 1) := by
  have hleast := h.leastFree_eq
  obtain ⟨hbase, hlive⟩ := h
  refine ⟨Nat.le_succ_of_le hbase, fun r => ?_⟩
  show r ∈ insertReg p.leastFree p.live ↔ p.base ≤ r.index ∧ r.index < temp + 1
  rw [mem_insertReg, hlive, hleast]
  constructor
  · rintro (rfl | h)
    · exact ⟨hbase, Nat.lt_succ_self temp⟩
    · omega
  · intro h
    by_cases heq : r.index = temp
    · exact .inl (congrArg Reg.mk heq)
    · exact .inr (by omega)

theorem FilledTo.reserves_iff (h : p.FilledTo temp) (r : Reg) : p.Reserves r ↔ temp ≤ r.index := by
  obtain ⟨hbase, hlive⟩ := h
  rw [Reserves, hlive]
  omega

/-- A register that may be used while the pool is as it is. -/
def Usable (p : Pool) (r : Reg) : Prop :=
  r.index ≠ 0 ∧ ¬ p.Reserves r

end Pool

/-- A register that may be used while the temporaries from `temp` on are free. -/
def Reg.UsableBelow (temp : Nat) (r : Reg) : Prop :=
  r.index ≠ 0 ∧ r.index < temp

instance (temp : Nat) (r : Reg) : Decidable (r.UsableBelow temp) :=
  inferInstanceAs (Decidable (_ ∧ _))

theorem Pool.FilledTo.usable_iff {p : Pool} {temp : Nat} (h : p.FilledTo temp) (r : Reg) :
    p.Usable r ↔ r.UsableBelow temp := by
  rw [Pool.Usable, h.reserves_iff, Nat.not_le, Reg.UsableBelow]

/-- What the check of a register says. -/
theorem Builder.check_eq_ok_iff {b : Builder} (hguard : b.guarded = true) (r : Reg) :
    b.check r = .ok () ↔ b.pool.Usable r := by
  rw [check, Pool.Usable]
  split
  next hzero => simp [hzero]
  next hzero =>
    split
    next hreserved => simp [hreserved.2]
    next hreserved => simpa [hzero, hguard] using hreserved

end TextMachine
