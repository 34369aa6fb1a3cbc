import TextMachine.Build.Library
import TextMachine.Proofs.Build.Temporaries
import TextMachine.Proofs.Resolution.Positions

/-!
# What building steps emit

`Build.Emits` describes a building step completely: the code that it appends, the number of labels
that it makes, and when it fails. It fails for one of two reasons only: a register is refused, or a
label of the code is defined already. The description depends on the builder through its pool and
its label counter only, so the descriptions of steps compose (`Emits.bind`), and those of the
control structures follow from those of their parts.
-/

namespace TextMachine

/-! ## Extending a builder -/

namespace Builder

/-- The builder after a piece of code has been appended for which `labels` labels were made. -/
def extend (b : Builder) (code : List Instruction) (labels : Nat) : Builder :=
  { b with
    code := b.code ++ code.toArray
    nextLabel := b.nextLabel + labels
    defined := (definedLabels code).reverse ++ b.defined }

/-- The given labels can be defined one after another. -/
def Admits (b : Builder) (labels : List Label) : Prop :=
  labels.Nodup ∧ ∀ l ∈ labels, l ∉ b.defined

variable (b : Builder)

@[simp] theorem extend_nil : b.extend [] 0 = b := by
  simp [extend]

theorem extend_extend (c d : List Instruction) (k m : Nat) :
    (b.extend c k).extend d m = b.extend (c ++ d) (k + m) := by
  simp [extend, Nat.add_assoc]

theorem admits_nil : b.Admits [] := by
  simp [Admits]

theorem admits_append {c : List Instruction} {k : Nat} {labels : List Label} :
    b.Admits (definedLabels c ++ labels) ↔
      b.Admits (definedLabels c) ∧ (b.extend c k).Admits labels := by
  simp only [Admits, extend, List.nodup_append, List.mem_append, List.mem_reverse, not_or]
  constructor
  · rintro ⟨⟨hc, hl, hne⟩, hnew⟩
    refine ⟨⟨hc, fun l h => hnew l (.inl h)⟩, hl, fun l h => ⟨fun h' => ?_, hnew l (.inr h)⟩⟩
    exact hne l h' l h rfl
  · rintro ⟨⟨hc, hcnew⟩, hl, hlnew⟩
    refine ⟨⟨hc, hl, ?_⟩, ?_⟩
    · rintro l h _ h' rfl
      exact (hlnew l h').1 h
    · rintro l (h | h)
      · exact hcnew l h
      · exact (hlnew l h).2

end Builder

namespace Build

variable {σ : Type}

/-- With temporaries from the given pool and the label counter at `counter`, a building step appends
`code` and makes `labels` labels, or fails. It succeeds when it is allowed to and the labels that
the code defines are new; being allowed to, it fails over a label only. -/
def Emits (x : Build σ Unit) (pool : Pool) (counter : Nat) (allowed : Prop)
    (code : List Instruction) (labels : Nat) : Prop :=
  ∀ b : Builder, b.guarded = true → b.pool = pool → b.nextLabel = counter → ∀ s : σ,
    (allowed ∧ b.Admits (definedLabels code) →
      x.perform b s = (.ok (), b.extend code labels, s)) ∧
    (¬ (allowed ∧ b.Admits (definedLabels code)) →
      ∃ e b', x.perform b s = (.error e, b', s) ∧ (allowed → ∃ l, e = .duplicateLabel l))

namespace Emits

variable {x y : Build σ Unit} {pool : Pool} {counter : Nat} {A A' : Prop}
  {c c' : List Instruction} {k m : Nat}

/-! ## Single steps -/

theorem congr (h : Emits x pool counter A c k) (hA : A ↔ A') (hc : c = c') (hk : k = m) :
    Emits x pool counter A' c' m := by
  subst hc hk
  rwa [propext hA] at h

/-- A step that is allowed fails over a label only. -/
theorem ok_or_label (h : Emits x pool counter A c k) (hA : A) {b : Builder}
    (hguard : b.guarded = true) (hpool : b.pool = pool) (hcounter : b.nextLabel = counter) (s : σ) :
    (x.perform b s).1 = .ok () ∨ ∃ l, (x.perform b s).1 = .error (.duplicateLabel l) := by
  obtain ⟨hok, hfail⟩ := h b hguard hpool hcounter s
  by_cases hadmits : b.Admits (definedLabels c)
  · rw [hok ⟨hA, hadmits⟩]
    exact .inl rfl
  · obtain ⟨e, b', herr, hlabel⟩ := hfail fun hcond => hadmits hcond.2
    obtain ⟨l, rfl⟩ := hlabel hA
    rw [herr]
    exact .inr ⟨l, rfl⟩

/-- A step that may always be made. -/
theorem of_perform (h : ∀ (b : Builder) (s : σ), x.perform b s = (.ok (), b.extend c k, s))
    (hc : definedLabels c = []) : Emits x pool counter True c k := by
  intro b _ _ _ s
  refine ⟨fun _ => h b s, fun hnot => absurd ⟨trivial, ?_⟩ hnot⟩
  rw [hc]
  exact b.admits_nil

theorem pure : Emits (Pure.pure () : Build σ Unit) pool counter True [] 0 := by
  apply of_perform _ rfl
  intro b s
  rw [perform_pure, Builder.extend_nil]

/-- Appending an instruction that defines no label. -/
theorem emit {i : Instruction} (hi : i.definedLabel? = none) :
    Emits (Build.emit i : Build σ Unit) pool counter True [i] 0 := by
  have hdef : definedLabels [i] = [] := by
    rw [definedLabels_cons, hi]
    rfl
  apply of_perform _ hdef
  intro b s
  rw [perform_emit]
  simp [Builder.append, Builder.extend, hdef]

theorem jump (l : Label) :
    Emits (Build.jump l : Build σ Unit) pool counter True [.jump l] 0 :=
  emit rfl

theorem define (l : Label) :
    Emits (Build.define l : Build σ Unit) pool counter True [.setLabel l] 0 := by
  intro b _ _ _ s
  have hdef : definedLabels [.setLabel l] = [l] := rfl
  have hadmits : b.Admits [l] ↔ l ∉ b.defined := by
    simp [Builder.Admits]
  rw [hdef, perform_define, hadmits, true_and]
  constructor
  · intro hnew
    rw [if_neg hnew]
    simp [Builder.append, Builder.extend, hdef]
  · intro hold
    rw [if_pos (not_not.1 hold)]
    exact ⟨_, _, rfl, fun _ => ⟨l, rfl⟩⟩

/-- Appending an instruction after a check of its register. -/
theorem checked {i : Instruction} (r : Reg) (hi : i.definedLabel? = none) :
    Emits (do Build.check r; Build.emit i : Build σ Unit) pool counter (pool.Usable r) [i]
      0 := by
  intro b hguard hpool hcounter s
  have hok := Builder.check_eq_ok_iff hguard r
  rw [hpool] at hok
  have hdescr : Emits (Build.emit i : Build σ Unit) pool counter True [i] 0 := emit hi
  have hemit := (hdescr b hguard hpool hcounter s).1
  rw [perform_bind, perform_check]
  constructor
  · rintro ⟨husable, hadmits⟩
    rw [hok.2 husable]
    exact hemit ⟨trivial, hadmits⟩
  · intro hnot
    cases hcheck : b.check r with
    | error e =>
      refine ⟨e, b, rfl, fun husable => ?_⟩
      rw [hok.2 husable] at hcheck
      cases hcheck
    | ok u =>
      refine absurd ⟨hok.1 hcheck, ?_⟩ hnot
      rw [definedLabels_cons, hi]
      exact b.admits_nil

theorem write (s : Symbol) (r : Reg) :
    Emits (Build.write s r : Build σ Unit) pool counter (pool.Usable r) [.write s r] 0 :=
  checked r rfl

theorem case (r : Reg) :
    Emits (Build.case r : Build σ Unit) pool counter (pool.Usable r) [.case r] 0 :=
  checked r rfl

/-! ## Composition -/

/-- One step after another: the second starts where the first left the label counter. -/
theorem bind (hx : Emits x pool counter A c k) (hy : Emits y pool (counter + k) A' c' m) :
    Emits (do x; y) pool counter (A ∧ A') (c ++ c') (k + m) := by
  intro b hguard hpool hcounter s
  obtain ⟨hxok, hxfail⟩ := hx b hguard hpool hcounter s
  have hcounter' : (b.extend c k).nextLabel = counter + k := by
    rw [Builder.extend, hcounter]
  obtain ⟨hyok, hyfail⟩ := hy (b.extend c k) hguard hpool hcounter' s
  rw [perform_bind, definedLabels_append, b.admits_append]
  -- the second step is only made on the builder that the first one leaves when it succeeds
  by_cases hfirst : A ∧ b.Admits (definedLabels c)
  · rw [hxok hfirst]
    constructor
    · rintro ⟨⟨-, hA'⟩, -, hadmits⟩
      rw [← Builder.extend_extend]
      exact hyok ⟨hA', hadmits⟩
    · intro hnot
      obtain ⟨e, b', herr, hlabel⟩ :=
        hyfail fun h => hnot ⟨⟨hfirst.1, h.1⟩, hfirst.2, h.2⟩
      exact ⟨e, b', herr, fun hallowed => hlabel hallowed.2⟩
  · constructor
    · rintro ⟨⟨hA, -⟩, hadmits, -⟩
      exact absurd ⟨hA, hadmits⟩ hfirst
    · intro _
      obtain ⟨e, b', herr, hlabel⟩ := hxfail hfirst
      rw [herr]
      exact ⟨e, b', rfl, fun hallowed => hlabel hallowed.1⟩

/-- Making a label moves the counter on; what follows may use the label. -/
theorem freshLabel {hint : String} {f : Label → Build σ Unit}
    (h : Emits (f (.numbered hint counter)) pool (counter + 1) A c k) :
    Emits (do f (← Build.freshLabel hint)) pool counter A c (1 + k) := by
  intro b hguard hpool hcounter s
  -- to the builder a label that is only made is a piece of code without instructions
  have hextend : { b with nextLabel := b.nextLabel + 1 } = b.extend [] 1 := by
    simp [Builder.extend]
  obtain ⟨hok, hfail⟩ := h (b.extend [] 1) hguard hpool (by rw [Builder.extend, hcounter]) s
  have hadmits : (b.extend [] 1).Admits (definedLabels c) ↔ b.Admits (definedLabels c) := by
    simp [Builder.Admits, Builder.extend]
  rw [hadmits] at hok hfail
  rw [perform_bind, perform_freshLabel, hcounter]
  show (_ → (f (.numbered hint counter)).perform _ s = _) ∧
    (_ → ∃ e b', (f (.numbered hint counter)).perform _ s = _ ∧ _)
  rw [← hcounter, hextend, hcounter]
  refine ⟨fun hcond => ?_, hfail⟩
  rw [hok hcond, Builder.extend_extend, List.nil_append]

/-- The body of `withTemp` gets the first free register, and the pool is afterwards what it was. -/
theorem withTemp {body : Reg → Build σ Unit}
    (h : Emits (body pool.leastFree) pool.take.2 counter A c k) :
    Emits (Build.withTemp body) pool counter A c k := by
  intro b hguard hpool hcounter s
  subst hpool
  -- the builder inside the body differs from `b` in its pool only
  obtain ⟨hok, hfail⟩ := h { b with pool := b.pool.take.2 } hguard rfl hcounter s
  have hperform : (Build.withTemp body).perform b s =
      match (body b.pool.leastFree).perform { b with pool := b.pool.take.2 } s with
      | (result, b', s') => (result, { b' with pool := b'.pool.release b.pool.leastFree }, s') := by
    simp [Build.withTemp]
  rw [hperform]
  constructor
  · intro hcond
    rw [hok hcond]
    simp only [Builder.extend, Pool.release_take]
  · intro hnot
    obtain ⟨e, b', herr, hlabel⟩ := hfail hnot
    rw [herr]
    exact ⟨e, _, rfl, hlabel⟩

/-- The operands of a routine must be usable, and no two of them the same. -/
theorem checkOperands (regs : List Reg) :
    Emits (Build.checkOperands regs : Build σ Unit) pool counter
      (regs.Nodup ∧ ∀ r ∈ regs, pool.Usable r) [] 0 := by
  intro b hguard hpool hcounter s
  have hadmits : b.Admits (definedLabels []) := b.admits_nil
  simp only [hadmits, and_true, Builder.extend_nil]
  -- nothing is emitted, so every operand is checked on the same builder
  induction regs with
  | nil => simp [Build.checkOperands]
  | cons r rest ih =>
    have hok := Builder.check_eq_ok_iff hguard r
    rw [hpool] at hok
    rw [Build.checkOperands, perform_bind, perform_check, List.nodup_cons, List.forall_mem_cons]
    cases hcheck : b.check r with
    | error e =>
      have hunusable : ¬ pool.Usable r := by
        rw [← hok, hcheck]
        exact nofun
      exact ⟨fun h => absurd h.2.1 hunusable,
        fun _ => ⟨e, b, rfl, fun h => absurd h.2.1 hunusable⟩⟩
    | ok u =>
      have husable := hok.1 hcheck
      by_cases hmem : r ∈ rest
      · simp [hmem]
      · simpa [hmem, husable] using ih

end Emits

end Build

/-! ## Control structures -/

/-- The scope of a block whose labels are made from `counter` on. -/
def Scope.numbered (counter : Nat) : Scope where
  start := .numbered "start" counter
  finish := .numbered "end" (counter + 1)

/-- The code of a block whose labels are made from `counter` on. -/
def blockCode (counter : Nat) (body : List Instruction) : List Instruction :=
  .setLabel (Scope.numbered counter).start :: body ++ [.setLabel (Scope.numbered counter).finish]

/-- The code of a dispatch whose labels are made from `counter` on. -/
def casesCode (r : Reg) (counter : Nat) (empty one hash : List Instruction) : List Instruction :=
  let onEmpty := Label.numbered "empty" counter
  let onOne := Label.numbered "one" (counter + 1)
  let onHash := Label.numbered "hash" (counter + 2)
  let post := Label.numbered "post" (counter + 3)
  [.case r, .jump onEmpty, .jump onOne, .jump onHash, .jump post, .setLabel onEmpty] ++ empty ++
    [.jump post, .setLabel onOne] ++ one ++ [.jump post, .setLabel onHash] ++ hash ++
      [.setLabel post]

/-- The code of a loop over a register, with the code of its two bodies. -/
def loopCode (r : Reg) (counter : Nat) (one hash : List Instruction) : List Instruction :=
  let scope := Scope.numbered counter
  blockCode counter (casesCode r (counter + 2) [.jump scope.finish]
    (one ++ [.jump scope.start]) (hash ++ [.jump scope.start]))

/-- The code of a loop that drops a symbol in each pass. -/
def whileCode (r : Reg) (counter : Nat) (body : List Instruction) : List Instruction :=
  let scope := Scope.numbered counter
  blockCode counter
    (casesCode r (counter + 2) [.jump scope.finish] [] [] ++ body ++ [.jump scope.start])

namespace Build

variable {σ : Type}

namespace Emits

variable {pool : Pool} {counter : Nat}

theorem block {body : Scope → Build σ Unit} {A : Prop} {c : List Instruction} {k : Nat}
    (h : Emits (body (.numbered counter)) pool (counter + 2) A c k) :
    Emits (Build.block body) pool counter A (blockCode counter c) (k + 2) := by
  have hdescr : Emits (Build.block body) pool counter (True ∧ A ∧ True) _ _ :=
    freshLabel (freshLabel (bind (define _) (bind h (define _))))
  apply hdescr.congr
  · simp
  · simp [blockCode, Scope.numbered]
  · omega

theorem cases {r : Reg} {empty one hash : Build σ Unit} {E O H : Prop}
    {e o h : List Instruction} {i j k : Nat}
    (hempty : Emits empty pool (counter + 4) E e i)
    (hone : Emits one pool (counter + 4 + i) O o j)
    (hhash : Emits hash pool (counter + 4 + i + j) H h k) :
    Emits (Build.cases r empty one hash) pool counter (pool.Usable r ∧ E ∧ O ∧ H)
      (casesCode r counter e o h) (i + j + k + 4) := by
  -- one rule for each line of the definition; conditions that say nothing drop out afterwards
  have hdescr : Emits (Build.cases r empty one hash) pool counter
      (pool.Usable r ∧ True ∧ True ∧ True ∧ True ∧ True ∧ E ∧ True ∧ True ∧ O ∧ True ∧
        True ∧ H ∧ True) _ _ :=
    freshLabel (freshLabel (freshLabel (freshLabel (bind (case r) (bind (jump _) (bind (jump _)
      (bind (jump _) (bind (jump _) (bind (define _) (bind hempty (bind (jump _)
        (bind (define _) (bind hone (bind (jump _) (bind (define _)
          (bind hhash (define _)))))))))))))))))
  apply hdescr.congr
  · simp
  · simp [casesCode]
  · omega

theorem loopOn {r : Reg} {one hash : Scope → Build σ Unit} {O H : Prop}
    {o h : List Instruction} {j k : Nat}
    (hone : Emits (one (.numbered counter)) pool (counter + 6) O o j)
    (hhash : Emits (hash (.numbered counter)) pool (counter + 6 + j) H h k) :
    Emits (Build.loopOn r one hash) pool counter (pool.Usable r ∧ O ∧ H)
      (loopCode r counter o h) (j + k + 6) := by
  have hdescr : Emits (Build.loopOn r one hash) pool counter
      (pool.Usable r ∧ True ∧ (O ∧ True) ∧ H ∧ True) _ _ :=
    block (cases (jump _) (bind hone (jump _)) (bind hhash (jump _)))
  apply hdescr.congr
  · simp
  · rfl
  · omega

theorem repeatOn {r : Reg} {one hash : Build σ Unit} {O H : Prop} {o h : List Instruction}
    {j k : Nat} (hone : Emits one pool (counter + 6) O o j)
    (hhash : Emits hash pool (counter + 6 + j) H h k) :
    Emits (Build.repeatOn r one hash) pool counter (pool.Usable r ∧ O ∧ H)
      (loopCode r counter o h) (j + k + 6) :=
  loopOn hone hhash

theorem whileNonempty {r : Reg} {body : Build σ Unit} {A : Prop} {c : List Instruction} {k : Nat}
    (h : Emits body pool (counter + 6) A c k) :
    Emits (Build.whileNonempty r body) pool counter (pool.Usable r ∧ A)
      (whileCode r counter c) (k + 6) := by
  have hdescr : Emits (Build.whileNonempty r body) pool counter
      ((pool.Usable r ∧ True ∧ True ∧ True) ∧ A ∧ True) _ _ :=
    block (bind (cases (jump _) pure pure) (bind h (jump _)))
  apply hdescr.congr
  · simp
  · simp [whileCode]
  · omega

end Emits

end Build

end TextMachine
