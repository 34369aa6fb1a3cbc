import TextMachine.Proofs.Build.Operands
import TextMachine.Proofs.Build.Sessions
import TextMachine.Proofs.Resolution.Errors
import TextMachine.Proofs.Structured.Labels

/-!
# Routines check first

A routine of the library checks its operands once, when it is called. Everything that it builds
afterwards checks registers again and defines labels, deep inside of loops and with a temporary in
use, and none of that can fail: an operand that is usable stays so while the temporary is in use,
the temporary is usable and none of the operands, and the labels are new. So a routine is built
whole or not at all (`routines_are_all_or_nothing`).

A routine that is selected by name puts a comment in front of the call. The comment is written
before the operands are checked, so it stays behind when the check fails (`routine_error_iff`).
-/

namespace TextMachine

/-! ## Operands and the temporary -/

namespace Pool

variable {p : Pool} {r : Reg}

/-- The operands of a routine differ and are usable. -/
def Accepts (p : Pool) (regs : List Reg) : Prop :=
  regs.Nodup ∧ ∀ r ∈ regs, p.Usable r

theorem operandFaults_eq_nil_iff_accepts {regs : List Reg} :
    p.operandFaults regs = [] ↔ p.Accepts regs :=
  operandFaults_eq_nil_iff.trans and_comm

theorem accepts_pair_iff {s : Reg} : p.Accepts [r, s] ↔ r ≠ s ∧ p.Usable r ∧ p.Usable s := by
  simp [Accepts]

theorem usable_leastFree (hbase : 1 ≤ p.base) : p.take.2.Usable p.leastFree := by
  have hle : p.base ≤ p.leastFree.index := le_firstGap p.base p.live
  exact ⟨by omega, fun hreserved => hreserved.2 (mem_insertReg.2 (.inl rfl))⟩

/-- What is usable apart from a temporary in use was usable before. -/
theorem usable_iff_take : p.Usable r ↔ p.take.2.Usable r ∧ r ≠ p.leastFree := by
  have htake : r ∈ p.take.2.live ↔ r = p.leastFree ∨ r ∈ p.live := mem_insertReg
  constructor
  · rintro ⟨hzero, hfree⟩
    refine ⟨⟨hzero, fun hreserved => hfree ⟨hreserved.1, ?_⟩⟩, ?_⟩
    · exact fun hlive => hreserved.2 (htake.2 (.inr hlive))
    · rintro rfl
      exact hfree ⟨le_firstGap p.base p.live, p.leastFree_not_mem⟩
  · rintro ⟨⟨hzero, hfree⟩, hne⟩
    refine ⟨hzero, fun hreserved => hfree ⟨hreserved.1, fun hlive => ?_⟩⟩
    exact hreserved.2 ((htake.1 hlive).resolve_left hne)

end Pool

/-! ## What the routines emit -/

namespace Build.Emits

variable {σ : Type} {pool : Pool} {counter : Nat}

/-- Moving takes no temporary, so its code does not depend on the first free one. -/
theorem move (source target : Reg) (temp : Nat) :
    Emits (Build.move source target : Build σ Unit) pool counter (pool.Accepts [source, target])
      ((Structured.move source target : Structured 0).code temp Fin.elim0 counter)
      ((Structured.move source target : Structured 0).labels temp) := by
  have hdescr : Emits (Build.move source target : Build σ Unit) pool counter _ _ _ :=
    bind (checkOperands [source, target]) (repeatOn (write .one target) (write .hash target))
  refine hdescr.congr (and_iff_left_of_imp fun h => ?_) rfl rfl
  obtain ⟨-, hsource, htarget⟩ := Pool.accepts_pair_iff.1 h
  exact ⟨hsource, htarget, htarget⟩

theorem clear (r : Reg) (temp : Nat) :
    Emits (Build.clear r : Build σ Unit) pool counter (pool.Accepts [r])
      ((Structured.clear r : Structured 0).code temp Fin.elim0 counter)
      ((Structured.clear r : Structured 0).labels temp) := by
  have hdescr : Emits (Build.clear r : Build σ Unit) pool counter _ _ _ :=
    bind (checkOperands [r]) (whileNonempty pure)
  refine hdescr.congr (and_iff_left_of_imp fun h => ?_) rfl rfl
  exact ⟨h.2 r (by simp), trivial⟩

/-! The other routines take one temporary at a time. While it is in use, the operands are still
usable and differ from it. -/

section Temporary

variable (hbase : 1 ≤ pool.base)
include hbase

theorem copy (source target : Reg) :
    Emits (Build.copy source target : Build σ Unit) pool counter (pool.Accepts [source, target])
      ((Structured.copy source target : Structured 0).code pool.leastFree.index Fin.elim0 counter)
      ((Structured.copy source target : Structured 0).labels pool.leastFree.index) := by
  have hdescr : Emits (Build.copy source target : Build σ Unit) pool counter _ _ _ :=
    bind (checkOperands [source, target]) <| withTemp <|
      bind (repeatOn (bind (write .one target) (write .one pool.leastFree))
        (bind (write .hash target) (write .hash pool.leastFree)))
        (move pool.leastFree source (pool.leastFree.index + 1))
  refine hdescr.congr (and_iff_left_of_imp fun h => ?_) rfl rfl
  obtain ⟨-, husable, husable'⟩ := Pool.accepts_pair_iff.1 h
  obtain ⟨hsource, hne⟩ := Pool.usable_iff_take.1 husable
  obtain ⟨htarget, -⟩ := Pool.usable_iff_take.1 husable'
  have htemp := Pool.usable_leastFree hbase
  exact ⟨⟨hsource, ⟨htarget, htemp⟩, htarget, htemp⟩,
    Pool.accepts_pair_iff.2 ⟨hne.symm, htemp, hsource⟩⟩

theorem swap (left right : Reg) :
    Emits (Build.swap left right : Build σ Unit) pool counter (pool.Accepts [left, right])
      ((Structured.swap left right : Structured 0).code pool.leastFree.index Fin.elim0 counter)
      ((Structured.swap left right : Structured 0).labels pool.leastFree.index) := by
  have hdescr : Emits (Build.swap left right : Build σ Unit) pool counter _ _ _ :=
    bind (checkOperands [left, right]) <| withTemp <|
      bind (move left pool.leastFree (pool.leastFree.index + 1)) <|
      bind (move right left (pool.leastFree.index + 1))
        (move pool.leastFree right (pool.leastFree.index + 1))
  refine hdescr.congr (and_iff_left_of_imp fun h => ?_) rfl rfl
  obtain ⟨hne, husable, husable'⟩ := Pool.accepts_pair_iff.1 h
  obtain ⟨hleft, hleftTemp⟩ := Pool.usable_iff_take.1 husable
  obtain ⟨hright, hrightTemp⟩ := Pool.usable_iff_take.1 husable'
  have htemp := Pool.usable_leastFree hbase
  simp only [Pool.accepts_pair_iff]
  exact ⟨⟨hleftTemp, hleft, htemp⟩, ⟨hne.symm, hright, hleft⟩, hrightTemp.symm, htemp, hright⟩

theorem prepend (symbol : Symbol) (target : Reg) :
    Emits (Build.prepend symbol target : Build σ Unit) pool counter (pool.Usable target)
      ((Structured.prepend symbol target : Structured 0).code pool.leastFree.index Fin.elim0
        counter)
      ((Structured.prepend symbol target : Structured 0).labels pool.leastFree.index) := by
  have hdescr : Emits (Build.prepend symbol target : Build σ Unit) pool counter _ _ _ :=
    withTemp <| bind (write symbol pool.leastFree) <|
      bind (move target pool.leastFree (pool.leastFree.index + 1))
        (move pool.leastFree target (pool.leastFree.index + 1))
  refine hdescr.congr ?_ rfl rfl
  have htemp := Pool.usable_leastFree hbase
  rw [Pool.usable_iff_take (r := target), Pool.accepts_pair_iff, Pool.accepts_pair_iff]
  constructor
  · rintro ⟨-, ⟨hne, htarget, -⟩, -⟩
    exact ⟨htarget, hne⟩
  · rintro ⟨htarget, hne⟩
    exact ⟨htemp, ⟨hne, htarget, htemp⟩, hne.symm, htemp, htarget⟩

theorem reverse (source target : Reg) :
    Emits (Build.reverse source target : Build σ Unit) pool counter
      (pool.Accepts [source, target])
      ((Structured.reverse source target : Structured 0).code pool.leastFree.index Fin.elim0
        counter)
      ((Structured.reverse source target : Structured 0).labels pool.leastFree.index) := by
  have hdescr : Emits (Build.reverse source target : Build σ Unit) pool counter _ _ _ :=
    bind (checkOperands [source, target])
      (repeatOn (prepend hbase .one target) (prepend hbase .hash target))
  refine hdescr.congr (and_iff_left_of_imp fun h => ?_) rfl rfl
  obtain ⟨-, hsource, htarget⟩ := Pool.accepts_pair_iff.1 h
  exact ⟨hsource, htarget, htarget⟩

/-- What a routine emits depends on the first free temporary and the label counter. That the
operands are accepted is all that it takes. -/
theorem call (c : Call Reg) :
    Emits (Build.call c : Build σ Unit) pool counter (pool.Accepts c.operands)
      ((Structured.call c : Structured 0).code pool.leastFree.index Fin.elim0 counter)
      ((Structured.call c : Structured 0).labels pool.leastFree.index) := by
  cases c with
  | move source target => exact move source target _
  | copy source target => exact copy hbase source target
  | clear r => exact clear r _
  | swap left right => exact swap hbase left right
  | reverse source target => exact reverse hbase source target

end Temporary

end Build.Emits

/-! ## Whole or not at all -/

/-- The code that a call adds to a builder. -/
def Builder.fragment (b : Builder) (c : Call Reg) : List Instruction :=
  (Structured.call c : Structured 0).code b.pool.leastFree.index Fin.elim0 b.nextLabel

section Fragments

variable {b : Builder} {c : Call Reg}

theorem wired_fragment : Wired (fun _ => False) b.nextLabel (b.fragment c) :=
  (Structured.wired_code _ _ _ _).mono (fun _ ⟨k, _⟩ => k.elim0) (Nat.le_refl _)

theorem nodup_definedLabels_fragment : (definedLabels (b.fragment c)).Nodup :=
  Structured.nodup_definedLabels_code _ _ _ _

theorem count_setLabel_fragment {l : Label} (h : .jump l ∈ b.fragment c) :
    (b.fragment c).count (.setLabel l) = 1 :=
  count_setLabel_eq_one nodup_definedLabels_fragment
    ((wired_fragment.jumps l h).resolve_right id)

/-- Where all labels that are defined have been made, those of a routine are new. -/
theorem admits_fragment (hlabels : ∀ l ∈ b.defined, b.Made l) :
    b.Admits (definedLabels (b.fragment c)) := by
  refine ⟨nodup_definedLabels_fragment, fun l hl hdefined => ?_⟩
  obtain ⟨hint, k, hk, rfl⟩ := wired_fragment.labels l hl
  exact (hlabels _ hdefined).ne_numbered hk hint rfl

end Fragments

/-- **Routines are built whole or not at all.** On a builder in use whose defined labels were all
made on it, under hints that do not end in a digit, a routine succeeds exactly if each of its
operands passes the check and no two are the same register. If it fails, nothing has changed, and
the error is the first in the order of the operands, that one is refused before that it is repeated.
If it succeeds, it has appended a piece of code, with the temporaries as they were, and every label
that the piece jumps to is defined in it once. -/
theorem routines_are_all_or_nothing {σ : Type} {b : Builder} (hreach : b.Reachable)
    (hlabels : ∀ l ∈ b.defined, b.Made l) (c : Call Reg) (s : σ) :
    let outcome := (Build.call c : Build σ Unit).perform b s
    (outcome.1 = .ok () ↔ (∀ r ∈ c.operands, b.check r = .ok ()) ∧ c.operands.Nodup) ∧
      (∀ e, outcome.1 = .error e →
        outcome.2 = (b, s) ∧ (b.pool.operandFaults c.operands).head? = some e) ∧
      (outcome.1 = .ok () → ∃ fragment labels, outcome.2 = (b.extend fragment labels, s) ∧
        ∀ l, .jump l ∈ fragment → fragment.count (.setLabel l) = 1) := by
  intro outcome
  have hchecks : ((∀ r ∈ c.operands, b.check r = .ok ()) ∧ c.operands.Nodup) ↔
      b.pool.operandFaults c.operands = [] := by
    simp only [Builder.check_eq_ok_iff hreach.guarded]
    exact Pool.operandFaults_eq_nil_iff.symm
  rw [hchecks]
  cases hfaults : b.pool.operandFaults c.operands with
  | cons e rest =>
    have houtcome : outcome = (.error e, b, s) :=
      Build.perform_call_of_fault hreach.guarded (by rw [hfaults]; rfl)
    rw [houtcome]
    refine ⟨by simp, ?_, nofun⟩
    rintro e' ⟨⟩
    exact ⟨rfl, rfl⟩
  | nil =>
    have haccepts := Pool.operandFaults_eq_nil_iff_accepts.1 hfaults
    have houtcome : outcome = (.ok (), b.extend (b.fragment c) _, s) :=
      (Build.Emits.call hreach.base_pos c b hreach.guarded rfl rfl s).1
        ⟨haccepts, admits_fragment hlabels⟩
    rw [houtcome]
    exact ⟨by simp, nofun, fun _ => ⟨_, _, rfl, fun _ => count_setLabel_fragment⟩⟩

/-- A label is defined, and of two temporaries the first has been given back. -/
def gapBelowLive : List Operation :=
  [.fresh "top", .define ⟨"top0"⟩, .alloc, .alloc, .free ⟨5⟩]

/-- The temporary in use is an operand, and the free one below it is the routine's. -/
theorem routines_are_all_or_nothing_gapBelowLive :
    let b := (Session.replay { builder := .startingAt 5 } gapBelowLive).builder
    ∃ fragment labels, (Build.call (.copy ⟨6⟩ ⟨1⟩) : Build Unit Unit).perform b () =
      (.ok (), b.extend fragment labels, ()) := by
  intro b
  have hlabels : ∀ l ∈ b.defined, b.Made l := by
    intro l hl
    obtain rfl : l = ⟨"top0"⟩ := List.mem_singleton.1 hl
    exact ⟨"top", 0, by decide, by decide, by decide⟩
  obtain ⟨hiff, -, hok⟩ :=
    routines_are_all_or_nothing ⟨5, gapBelowLive, rfl⟩ hlabels (.copy ⟨6⟩ ⟨1⟩) ()
  have hresult := hiff.2 ⟨by decide, by decide⟩
  obtain ⟨fragment, labels, hrest, -⟩ := hok hresult
  exact ⟨fragment, labels, Prod.ext hresult hrest⟩

/-! ## Routines by name -/

/-- A routine with nothing wrong about it fails over a label only. -/
theorem perform_routine_of_faultless {σ : Type} {b : Builder} (hreach : b.Reachable) {r : Routine}
    {regs : List Reg} (h : b.pool.routineFaults r regs = []) (s : σ) :
    ((Build.routine r regs).perform b s).1 = .ok () ∨
      ∃ l, ((Build.routine r regs).perform b s).1 = .error (.duplicateLabel l) := by
  obtain ⟨c, hcall, hfaultless⟩ := Pool.exists_call_of_routineFaults_eq_nil h
  have haccepts := Pool.operandFaults_eq_nil_iff_accepts.1 hfaultless
  have hperform : (Build.routine r regs).perform b s =
      (Build.call c).perform (b.append (.comment c.header)) s := by
    rw [Build.routine, hcall]
    rfl
  -- the comment changes neither the pool nor the label counter
  have hguard : (b.append (.comment c.header)).guarded = true := hreach.guarded
  rw [hperform]
  exact (Build.Emits.call hreach.base_pos c).ok_or_label haccepts hguard rfl rfl s

/-- **What a routine leaves behind when it fails.** Labels apart, a routine fails exactly if there
is something wrong with the number of its registers or with the registers, over the first such
thing. The builder is then what it was, but for the comment that announces the call: nothing else
has been appended, no label made or defined, and no temporary taken. A wrong number of registers is
noticed before the comment. -/
theorem routine_error_iff {σ : Type} {b : Builder} (hreach : b.Reachable) (r : Routine)
    (regs : List Reg) (s : σ) {e : BuildError} (he : ∀ l, e ≠ .duplicateLabel l) {b' : Builder}
    {s' : σ} :
    (Build.routine r regs).perform b s = (.error e, b', s') ↔
      (b.pool.routineFaults r regs).head? = some e ∧ b' = b.announce r regs ∧ s' = s := by
  constructor
  · intro hfail
    cases hfaults : b.pool.routineFaults r regs with
    | nil =>
      have houtcome := perform_routine_of_faultless hreach hfaults s
      rw [hfail] at houtcome
      rcases houtcome with hok | ⟨l, hl⟩
      · cases hok
      · exact absurd (Except.error.inj hl) (he l)
    | cons e' rest =>
      rw [Build.perform_routine_of_fault hreach.guarded (by rw [hfaults]; rfl)] at hfail
      cases hfail
      exact ⟨rfl, rfl, rfl⟩
  · rintro ⟨hfault, rfl, rfl⟩
    exact Build.perform_routine_of_fault hreach.guarded hfault

/-- A register in the range of the temporaries is refused under its comment. -/
theorem routine_error_iff_reserved :
    (Build.routine .copy [⟨1⟩, ⟨7⟩] : Build Unit Unit).perform (.startingAt 5) () =
      (.error (.reserved ⟨7⟩), (Builder.startingAt 5).append (.comment "copy(r1, r7)"), ()) :=
  (routine_error_iff (e := .reserved ⟨7⟩) ⟨5, [], rfl⟩ .copy [⟨1⟩, ⟨7⟩] () nofun).2
    ⟨by decide, rfl, rfl⟩

/-- The builder after a routine was refused is not the builder before. -/
theorem routine_emits_before_it_checks :
    ∃ b', (Build.routine .move [⟨1⟩, ⟨1⟩] : Build Unit Unit).perform (.startingAt 1000) () =
        (.error (.aliased ⟨1⟩), b', ()) ∧
      b'.code = #[.comment "move(r1, r1)"] ∧ b'.code ≠ (Builder.startingAt 1000).code := by
  refine ⟨_, rfl, ?_, ?_⟩
  · decide
  · decide

end TextMachine
