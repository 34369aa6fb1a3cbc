import TextMachine.Op

/-!
# The pool of temporary registers

From its base on, registers are handed out as temporaries, always the least one that is not in use,
so that the numbering depends only on the order of the calls.
-/

namespace TextMachine

/-- The temporaries of a build. -/
structure Pool where
  /-- The first register that can be a temporary. -/
  base : Nat
  /-- The temporaries in use, in increasing order. -/
  live : List Reg := []
  sorted : live.Pairwise fun r s => r.index < s.index := by exact .nil
deriving DecidableEq

/-- The least number from `first` on that no register of an increasing list has. -/
def firstGap (first : Nat) : List Reg → Nat
  | [] => first
  | r :: rest =>
    if r.index < first then firstGap first rest
    else if r.index = first then firstGap (first + 1) rest
    else first

/-- Put a register in its place in an increasing list. -/
def insertReg (r : Reg) : List Reg → List Reg
  | [] => [r]
  | s :: rest =>
    if r.index < s.index then r :: s :: rest
    else if r.index = s.index then s :: rest
    else s :: insertReg r rest

theorem mem_insertReg {r s : Reg} {regs : List Reg} : s ∈ insertReg r regs ↔ s = r ∨ s ∈ regs := by
  induction regs with
  | nil => simp [insertReg]
  | cons t rest ih =>
    unfold insertReg
    split
    · exact List.mem_cons
    · split
      next h =>
        obtain rfl : r = t := congrArg Reg.mk h
        constructor
        · exact .inr
        · rintro (rfl | h)
          · exact List.mem_cons_self
          · exact h
      next =>
        rw [List.mem_cons, ih, List.mem_cons]
        exact or_left_comm

theorem sorted_insertReg (r : Reg) {regs : List Reg}
    (h : regs.Pairwise fun r s => r.index < s.index) :
    (insertReg r regs).Pairwise fun r s => r.index < s.index := by
  induction regs with
  | nil => exact List.pairwise_singleton _ _
  | cons t rest ih =>
    obtain ⟨ht, hrest⟩ := List.pairwise_cons.1 h
    unfold insertReg
    split
    next hlt =>
      refine List.pairwise_cons.2 ⟨fun s hs => ?_, h⟩
      rcases List.mem_cons.1 hs with rfl | hs
      · exact hlt
      · exact Nat.lt_trans hlt (ht s hs)
    next hlt =>
      split
      · exact h
      next hne =>
        refine List.pairwise_cons.2 ⟨fun s hs => ?_, ih hrest⟩
        rcases mem_insertReg.1 hs with rfl | hs
        · omega
        · exact ht s hs

theorem le_firstGap (first : Nat) (regs : List Reg) : first ≤ firstGap first regs := by
  induction regs generalizing first with
  | nil => exact Nat.le_refl first
  | cons r rest ih =>
    unfold firstGap
    split
    · exact ih first
    · split
      · exact Nat.le_of_succ_le (ih (first + 1))
      · exact Nat.le_refl first

/-- The first gap is one. -/
theorem firstGap_not_mem {first : Nat} {regs : List Reg}
    (h : regs.Pairwise fun r s => r.index < s.index) : (⟨firstGap first regs⟩ : Reg) ∉ regs := by
  induction regs generalizing first with
  | nil => exact List.not_mem_nil
  | cons r rest ih =>
    obtain ⟨hr, hrest⟩ := List.pairwise_cons.1 h
    unfold firstGap
    split
    next hlt =>
      have hle := le_firstGap first rest
      rw [List.mem_cons, not_or]
      refine ⟨fun he => ?_, ih hrest⟩
      have := congrArg Reg.index he
      simp only at this
      omega
    next hlt =>
      split
      next heq =>
        have hle := le_firstGap (first + 1) rest
        rw [List.mem_cons, not_or]
        refine ⟨fun he => ?_, ih hrest⟩
        have := congrArg Reg.index he
        simp only at this
        omega
      next hne =>
        rw [List.mem_cons, not_or]
        refine ⟨fun he => hne (congrArg Reg.index he).symm, fun hmem => ?_⟩
        have := hr _ hmem
        simp only at this
        omega

namespace Pool

/-- The pool whose temporaries start at `base`, or at 1 for want of a register 0. -/
def startingAt (base : Nat) : Pool :=
  { base := max base 1 }

/-- The least register from the base on that is not in use. -/
def leastFree (p : Pool) : Reg :=
  ⟨firstGap p.base p.live⟩

/-- Take the least free register. -/
def take (p : Pool) : Reg × Pool :=
  (p.leastFree, { p with
    live := insertReg p.leastFree p.live
    sorted := sorted_insertReg p.leastFree p.sorted })

/-- Give a register back. One that is not in use stays so. -/
def release (p : Pool) (r : Reg) : Pool :=
  { p with live := p.live.filter (· ≠ r), sorted := p.sorted.filter _ }

/-- Whether a register lies where temporaries do without being in use. -/
def Reserves (p : Pool) (r : Reg) : Prop :=
  p.base ≤ r.index ∧ r ∉ p.live

instance (p : Pool) (r : Reg) : Decidable (p.Reserves r) :=
  inferInstanceAs (Decidable (_ ∧ _))

end Pool

end TextMachine
