import TextMachine.Output
import TextMachine.Proofs.Script.Recipes

/-!
# Bodies that fail

A control structure makes the label of its end before its bodies are built, jumps to it, and defines
it after them. If a body fails, that label is never defined: the control structure is left, and
nobody else has the label. So the stream has a jump to nowhere from then on, whoever catches the
failure and whatever is built afterwards, and it does not resolve.

The argument is a program logic. `Recipe.Ensures` speaks about a recipe by assertions before and
after, and for a failure; an assertion also sees whether a body has failed so far. The assertion
here is `Kept`: which labels enclosing control structures are still going to define (`owed`), which
ones nobody but them has (`withheld`), and that, if a body has failed, there is a label that is none
of the former and one of the latter, with a jump to it.
-/

namespace TextMachine

/-! ## A logic of recipes -/

namespace Recipe

variable {σ α β : Type}

/-- A step ends with `Q` or, if it fails, with `E`. -/
def Ends (Q : α → Builder → σ → Prop) (E : Builder → σ → Prop) :
    Except BuildError α × Builder × σ → Prop
  | (.ok a, b, s) => Q a b s
  | (.error _, b, s) => E b s

theorem Ends.of_same {E : Builder → σ → Prop} {ending : Except BuildError α × Builder × σ}
    (h : Ends (fun _ => E) E ending) : E ending.2.1 ending.2.2 := by
  rcases ending with ⟨_ | _, _, _⟩ <;> exact h

/-- From builders and client's states with `P`, a recipe ends with `Q` if it succeeds and with `E`
if it fails. The assertions see whether the body of a control structure has failed so far. -/
def Ensures (P : Bool → Builder → σ → Prop) (p : Recipe σ α) (Q : α → Bool → Builder → σ → Prop)
    (E : Bool → Builder → σ → Prop) : Prop :=
  ∀ failed b s, P failed b s →
    Ends (fun a => Q a (failed || p.bodyFails b s)) (E (failed || p.bodyFails b s))
      (p.build.perform b s)

namespace Ensures

variable {P P' : Bool → Builder → σ → Prop} {Q Q' : α → Bool → Builder → σ → Prop}
  {R : β → Bool → Builder → σ → Prop} {E E' : Bool → Builder → σ → Prop} {x : Recipe σ α}
  {f : α → Recipe σ β}

theorem bind (hx : Ensures P x Q E) (hf : ∀ a, Ensures (Q a) (f a) R E) :
    Ensures P (x >>= f) R E := by
  intro failed b s hP
  have hfirst := hx failed b s hP
  show Ends (fun a => R a (failed || (Recipe.bind x f).bodyFails b s))
    (E (failed || (Recipe.bind x f).bodyFails b s))
    ((do (f (← x.build)).build : Build σ β).perform b s)
  rw [Build.perform_bind, bodyFails]
  rcases hperform : x.build.perform b s with ⟨e | a, b', s'⟩
  · rw [hperform] at hfirst
    rw [Bool.or_false]
    exact hfirst
  · rw [hperform] at hfirst
    rw [← Bool.or_assoc]
    exact hf a _ b' s' hfirst

theorem mono (h : Ensures P x Q E) (hP : ∀ failed b s, P' failed b s → P failed b s)
    (hQ : ∀ a failed b s, Q a failed b s → Q' a failed b s)
    (hE : ∀ failed b s, E failed b s → E' failed b s) : Ensures P' x Q' E' := by
  intro failed b s hb
  have hx := h failed b s (hP failed b s hb)
  rcases hperform : x.build.perform b s with ⟨e | a, b', s'⟩
  · rw [hperform] at hx
    exact hE _ _ _ hx
  · rw [hperform] at hx
    exact hQ _ _ _ _ hx

theorem pure {a : α} (h : ∀ failed b s, P failed b s → Q a failed b s) :
    Ensures P (Pure.pure a) Q E := by
  intro failed b s hP
  show Q a (failed || false) b s
  rw [Bool.or_false]
  exact h failed b s hP

theorem throw {e : BuildError} (h : ∀ failed b s, P failed b s → E failed b s) :
    Ensures P (Recipe.throw e) Q E := by
  intro failed b s hP
  show E (failed || false) b s
  rw [Bool.or_false]
  exact h failed b s hP

/-- After an attempt one cannot tell how it ended. -/
theorem attempt (h : Ensures P x (fun _ => E) E) :
    Ensures P (Recipe.attempt x) (fun _ => E) E' := by
  intro failed b s hP
  have hx := h failed b s hP
  show E (failed || x.bodyFails b s) (x.build.perform b s).2.1 (x.build.perform b s).2.2
  exact hx.of_same

/-- Where the body of a control structure fails, a body has failed. -/
theorem body {y : Recipe σ Unit} {Q : Unit → Bool → Builder → σ → Prop} (h : Ensures P y Q E)
    (hE : ∀ failed b s, E failed b s → E' true b s) : Ensures P (Recipe.body y) Q E' := by
  intro failed b s hP
  have hy := h failed b s hP
  rw [build, bodyFails]
  rcases hperform : y.build.perform b s with ⟨e | a, b', s'⟩
  · rw [hperform] at hy
    simpa [Ends, Except.isOk, Except.toBool] using hE _ b' s' hy
  · rw [hperform] at hy
    simpa [Ends, Except.isOk, Except.toBool] using hy

theorem operation {op : Primitive α}
    (h : ∀ failed b s, P failed b s → Ends (Q · failed) (E failed) (op.build.perform b s)) :
    Ensures P (Recipe.operation op) Q E := by
  intro failed b s hP
  show Ends (Q · (failed || false)) (E (failed || false)) (op.build.perform b s)
  rw [Bool.or_false]
  exact h failed b s hP

/-- What follows the reading of the client's state may use that it is the current one. -/
theorem getClient {f : σ → Recipe σ β}
    (h : ∀ s₀, Ensures (fun failed b s => s = s₀ ∧ P failed b s) (f s₀) R E) :
    Ensures P (Recipe.getClient >>= f) R E := by
  intro failed b s hP
  exact h s failed b s ⟨rfl, hP⟩

theorem modifyClient {f : σ → σ} {Q : Unit → Bool → Builder → σ → Prop}
    (h : ∀ failed b s, P failed b s → Q () failed b (f s)) :
    Ensures P (Recipe.modifyClient f) Q E := by
  intro failed b s hP
  show Q () (failed || false) b (f s)
  rw [Bool.or_false]
  exact h failed b s hP

end Ensures

end Recipe

/-! ## Labels that nobody has -/

theorem Label.numbered_ne_empty (hint : String) (counter : Nat) : numbered hint counter ≠ ⟨""⟩ := by
  intro h
  have hchars := toList_name_numbered hint counter
  rw [h] at hchars
  exact Nat.toDigits_ne_nil (List.append_eq_nil_iff.1 hchars.symm).2

namespace Builder

variable {b b' : Builder} {l : Label}

theorem Made.mono (h : b.Made l) (hle : b.nextLabel ≤ b'.nextLabel) : b'.Made l := by
  obtain ⟨hint, counter, hhint, hlt, hl⟩ := h
  exact ⟨hint, counter, hhint, Nat.lt_of_lt_of_le hlt hle, hl⟩

theorem Made.ne_empty (h : b.Made l) : l ≠ ⟨""⟩ := by
  obtain ⟨hint, counter, -, -, rfl⟩ := h
  exact Label.numbered_ne_empty hint counter

/-- The next label is a new one. -/
theorem Made.ne_next (h : b.Made l) (hint : String) : l ≠ .numbered hint b.nextLabel :=
  h.ne_numbered (Nat.le_refl _) hint

/-- A label that has been made and is not defined, and that no slot of a script holds. -/
structure Withheld (b : Builder) (n : Notes) (l : Label) : Prop where
  made : b.Made l
  undefined : l ∉ b.defined
  noSlot : ∀ e ∈ n.labels, e.2 ≠ l

end Builder

/-- What is known about labels in the middle of a session: those that enclosing control structures
are still going to define, or may have given away; those that nobody else has; and some that the
stream jumps to. -/
structure Custody where
  owed : List Label
  withheld : List Label
  aimed : List Label

namespace Custody

/-- To know less. -/
def Below (c c' : Custody) : Prop :=
  c.owed ⊆ c'.owed ∧ c.withheld ⊆ c'.withheld ∧ c.aimed ⊆ c'.aimed

theorem Below.refl (c : Custody) : c.Below c :=
  ⟨List.Subset.refl _, List.Subset.refl _, List.Subset.refl _⟩

/-- Inside a control structure that owes some labels and withholds some. -/
def enter (c : Custody) (owed withheld : List Label) : Custody :=
  { c with owed := owed ++ c.owed, withheld := withheld ++ c.withheld }

/-- After jumps to some labels. -/
def aim (c : Custody) (labels : List Label) : Custody :=
  { c with aimed := labels ++ c.aimed }

/-- The given labels are owed to someone and may be defined at any time. -/
def Frees (c : Custody) (known : List Label) : Prop :=
  ∀ l ∈ known, l ∈ c.owed ∧ l ∉ c.withheld

variable {c : Custody} {owed withheld withheld' known : List Label}

theorem below_enter : c.Below (c.enter owed withheld) :=
  ⟨List.subset_append_right _ _, List.subset_append_right _ _, List.Subset.refl _⟩

theorem enter_below_enter (h : withheld ⊆ withheld') :
    (c.enter owed withheld).Below (c.enter owed withheld') :=
  ⟨List.Subset.refl _, List.append_subset.2 ⟨List.subset_append_of_subset_left _ h,
    List.subset_append_right _ _⟩, List.Subset.refl _⟩

theorem Below.aim {c₀ : Custody} (h : c₀.Below c) (labels : List Label) :
    c₀.Below (c.aim labels) :=
  ⟨h.1, h.2.1, List.subset_append_of_subset_right _ h.2.2⟩

theorem Below.aim_aim {c₀ : Custody} (h : c₀.Below c) (labels : List Label) :
    (c₀.aim labels).Below (c.aim labels) :=
  ⟨h.1, h.2.1, List.append_subset.2
    ⟨List.subset_append_left _ _, List.subset_append_of_subset_right _ h.2.2⟩⟩

/-- A label withheld inside of a control structure is not one that was owed before. -/
theorem Frees.enter (h : c.Frees known) (hnew : ∀ l ∈ withheld, l ∉ c.owed) :
    (c.enter owed withheld).Frees known := by
  intro l hl
  obtain ⟨howed, hnot⟩ := h l hl
  refine ⟨List.mem_append_right owed howed, fun hmem => ?_⟩
  rcases List.mem_append.1 hmem with hmem | hmem
  · exact hnew l hmem howed
  · exact hnot hmem

theorem Frees.ne (h : c.Frees known) {l : Label} (hl : l ∈ known) (l' : Label)
    (hl' : l' ∈ c.withheld ∨ l' ∉ c.owed) : l' ≠ l := by
  rintro rfl
  rcases hl' with hl' | hl'
  · exact (h l' hl).2 hl'
  · exact hl' (h l' hl).1

end Custody

/-- The custody of labels is kept, and if a body has failed, the stream jumps to a label that nobody
is going to define. -/
structure Kept (c : Custody) (failed : Bool) (b : Builder) (n : Notes) : Prop where
  defined : ∀ l ∈ b.defined, l = ⟨""⟩ ∨ b.Made l
  slots : ∀ e ∈ n.labels, b.Made e.2
  owed : ∀ l ∈ c.owed, b.Made l
  withheld : ∀ l ∈ c.withheld, b.Withheld n l
  aimed : ∀ l ∈ c.aimed, .jump l ∈ b.code
  lost : failed = true → ∃ l, l ∉ c.owed ∧ b.Withheld n l ∧ .jump l ∈ b.code

namespace Kept

variable {c c' : Custody} {failed : Bool} {b b' : Builder} {n n' : Notes} {l : Label}

theorem mono (h : Kept c' failed b n) (hc : c.Below c') : Kept c failed b n where
  defined := h.defined
  slots := h.slots
  owed l hl := h.owed l (hc.1 hl)
  withheld l hl := h.withheld l (hc.2.1 hl)
  aimed l hl := h.aimed l (hc.2.2 hl)
  lost hfailed := by
    obtain ⟨l, hl, hlost⟩ := h.lost hfailed
    exact ⟨l, fun hmem => hl (hc.1 hmem), hlost⟩

/-- A label that the stream jumps to is lost when the control structure that withholds it is left.
-/
theorem lose (h : Kept c' failed b n) (hc : c.Below c') (hwithheld : l ∈ c'.withheld)
    (haimed : l ∈ c'.aimed) (hl : l ∉ c.owed) : Kept c true b n :=
  { h.mono hc with lost := fun _ => ⟨l, hl, h.withheld l hwithheld, h.aimed l haimed⟩ }

/-- A step keeps the custody of labels if the labels that matter for it stay withheld: those in its
list, and those that nobody is going to define. -/
theorem transfer (h : Kept c failed b n) (hnext : b.nextLabel ≤ b'.nextLabel)
    (hcode : ∀ i ∈ b.code, i ∈ b'.code) (hdefined : ∀ l ∈ b'.defined, l = ⟨""⟩ ∨ b'.Made l)
    (hslots : ∀ e ∈ n'.labels, b'.Made e.2)
    (hwithheld : ∀ l, l ∈ c.withheld ∨ l ∉ c.owed → b.Withheld n l → b'.Withheld n' l) :
    Kept c failed b' n' where
  defined := hdefined
  slots := hslots
  owed l hl := (h.owed l hl).mono hnext
  withheld l hl := hwithheld l (.inl hl) (h.withheld l hl)
  aimed l hl := hcode _ (h.aimed l hl)
  lost hfailed := by
    obtain ⟨l, hl, hlost, hjump⟩ := h.lost hfailed
    exact ⟨l, hl, hwithheld l (.inr hl) hlost, hcode _ hjump⟩

/-- A step that defines no labels. -/
theorem builder (h : Kept c failed b n) (hnext : b.nextLabel ≤ b'.nextLabel)
    (hdefined : b'.defined = b.defined) (hcode : ∀ i ∈ b.code, i ∈ b'.code) :
    Kept c failed b' n := by
  apply h.transfer hnext hcode
  · intro l hl
    rw [hdefined] at hl
    exact (h.defined l hl).imp_right fun hl => hl.mono hnext
  · exact fun e he => (h.slots e he).mono hnext
  · exact fun l _ hl => ⟨hl.made.mono hnext, hdefined ▸ hl.undefined, hl.noSlot⟩

/-- The labels in slots are all that counts of the notes. -/
theorem notes (h : Kept c failed b n) (hlabels : n'.labels = n.labels) : Kept c failed b n' := by
  apply h.transfer (Nat.le_refl _) (fun _ hi => hi) h.defined
  · exact hlabels ▸ h.slots
  · exact fun l _ hl => ⟨hl.made, hl.undefined, hlabels ▸ hl.noSlot⟩

theorem append (h : Kept c failed b n) (i : Instruction) : Kept c failed (b.append i) n :=
  h.builder (Nat.le_refl _) rfl fun _ hi => Array.mem_push_of_mem i hi

theorem aim (h : Kept c failed b n) (l : Label) :
    Kept (c.aim [l]) failed (b.append (.jump l)) n := by
  refine { h.append (.jump l) with aimed := ?_ }
  intro l' hl'
  rcases List.mem_cons.1 hl' with rfl | hl'
  · exact Array.mem_push_self
  · exact (h.append _).aimed l' hl'

/-- Defining a label leaves the custody of the others alone. -/
theorem define (h : Kept c failed b n) (hl : l = ⟨""⟩ ∨ b.Made l)
    (hne : ∀ l', b.Withheld n l' → l' ∈ c.withheld ∨ l' ∉ c.owed → l' ≠ l) :
    Kept c failed ({ b with defined := l :: b.defined }.append (.setLabel l)) n := by
  refine h.transfer (Nat.le_refl _) (fun _ hi => Array.mem_push_of_mem _ hi) ?_ h.slots ?_
  · intro l' hl'
    rcases List.mem_cons.1 hl' with rfl | hl'
    · exact hl
    · exact h.defined l' hl'
  · intro l' hl' hold
    have hundefined := List.not_mem_cons_of_ne_of_not_mem (hne l' hold hl') hold.undefined
    exact ⟨hold.made, hundefined, hold.noSlot⟩

/-- Putting a label into a slot leaves the custody of the others alone. -/
theorem setLabel (h : Kept c failed b n) (hl : b.Made l)
    (hne : ∀ l', l' ∈ c.withheld ∨ l' ∉ c.owed → l' ≠ l) (slot : String) :
    Kept c failed b (n.setLabel slot l) := by
  apply h.transfer (Nat.le_refl _) (fun _ hi => hi) h.defined
  · intro e he
    rcases List.mem_cons.1 he with rfl | he
    · exact hl
    · exact h.slots e he
  · intro l' hl' hold
    refine ⟨hold.made, hold.undefined, fun e he => ?_⟩
    rcases List.mem_cons.1 he with rfl | he
    · exact (hne l' hl').symm
    · exact hold.noSlot e he

/-- A new label is owed, and nobody has it. -/
theorem fresh (h : Kept c failed b n) {hint : String} (hhint : ¬ EndsInDigit hint) :
    let l := Label.numbered hint b.nextLabel
    Kept (c.enter [l] [l]) failed { b with nextLabel := b.nextLabel + 1 } n := by
  have hkept : Kept c failed { b with nextLabel := b.nextLabel + 1 } n :=
    h.builder (Nat.le_succ b.nextLabel) rfl fun _ hi => hi
  have hnew : { b with nextLabel := b.nextLabel + 1 : Builder }.Withheld n
      (.numbered hint b.nextLabel) := by
    refine ⟨⟨hint, b.nextLabel, hhint, Nat.lt_succ_self _, rfl⟩, fun hdefined => ?_, fun e he => ?_⟩
    · rcases h.defined _ hdefined with hempty | hold
      · exact Label.numbered_ne_empty hint _ hempty
      · exact hold.ne_next hint rfl
    · exact (h.slots e he).ne_next hint
  refine { hkept with
    owed := List.forall_mem_cons.2 ⟨hnew.made, hkept.owed⟩
    withheld := List.forall_mem_cons.2 ⟨hnew, hkept.withheld⟩
    lost := fun hfailed => ?_ }
  -- a label that was lost before is not the new one
  obtain ⟨l, hl, hlost, hjump⟩ := h.lost hfailed
  have hne := hlost.made.ne_next hint
  refine ⟨l, List.not_mem_cons_of_ne_of_not_mem hne hl, ?_, hjump⟩
  exact ⟨hlost.made.mono (Nat.le_succ b.nextLabel), hlost.undefined, hlost.noSlot⟩

end Kept

/-! ## Rules for recipes -/

/-- An operation that neither makes nor defines a label. -/
def Primitive.Quiet {α : Type} : Primitive α → Prop
  | freshLabel _ => False
  | define _ => False
  | _ => True

namespace Recipe

variable {α : Type} {c c₀ : Custody} {known : List Label}

/-- A recipe keeps the custody of labels wherever the given ones may be defined, also where it
fails. -/
def Keeps (known : List Label) (p : Recipe Notes α) : Prop :=
  ∀ c : Custody, c.Frees known → Ensures (Kept c) p (fun _ => Kept c) (Kept c)

/-- A recipe keeps the custody of labels, but may leave it to others to lose a label where it fails
because of a body. -/
def Tolerates (known : List Label) (p : Recipe Notes α) : Prop :=
  ∀ c : Custody, c.Frees known → Ensures (Kept c) p (fun _ => Kept c) (fun _ => Kept c false)

namespace Ensures

variable {Q : α → Bool → Builder → Notes → Prop} {E : Bool → Builder → Notes → Prop}

theorem fresh {hint : String} {f : Label → Recipe Notes α} (hhint : ¬ EndsInDigit hint)
    (hf : ∀ l, l ∉ c.owed → l ∉ c.withheld → Ensures (Kept (c.enter [l] [l])) (f l) Q E) :
    Ensures (Kept c) (Recipe.freshLabel hint >>= f) Q E := by
  intro failed b n h
  refine hf (.numbered hint b.nextLabel) ?_ ?_ failed _ n (h.fresh hhint)
  · exact fun hmem => (h.owed _ hmem).ne_next hint rfl
  · exact fun hmem => (h.withheld _ hmem).made.ne_next hint rfl

/-- To know less beforehand. -/
theorem before (hc : c₀.Below c) {x : Recipe Notes α} (h : Ensures (Kept c₀) x Q E) :
    Ensures (Kept c) x Q E :=
  h.mono (fun _ _ _ h => h.mono hc) (fun _ _ _ _ h => h) fun _ _ _ h => h

/-- An instruction with a register is appended, or refused. -/
theorem ends_checked {failed : Bool} {b : Builder} {n : Notes} (hc : c₀.Below c)
    (h : Kept c failed b n) (r : Reg) (i : Instruction) :
    Ends (fun _ : Unit => Kept c failed) (Kept c₀ failed)
      (match b.check r with
        | .ok () => (.ok (), b.append i, n)
        | .error e => (.error e, b, n)) := by
  cases b.check r with
  | ok u => exact h.append i
  | error e => exact h.mono hc

/-- An operation that neither makes nor defines a label. -/
theorem quiet (hc : c₀.Below c) {op : Primitive α} (hop : op.Quiet) :
    Ensures (Kept c) (Recipe.operation op) (fun _ => Kept c) (Kept c₀) := by
  refine operation fun failed b n h => ?_
  cases op with
  | check r =>
    rw [Primitive.build, Build.perform_check]
    cases b.check r with
    | ok u => exact h
    | error e => exact h.mono hc
  | freshLabel hint => exact hop.elim
  | define l => exact hop.elim
  | emit i => exact h.append i
  | write symbol r =>
    rw [Primitive.build, Build.perform_write]
    exact ends_checked hc h r _
  | case r =>
    rw [Primitive.build, Build.perform_case]
    exact ends_checked hc h r _
  | allocTemp => exact h.builder (Nat.le_refl _) rfl fun _ hi => hi
  | freeTemp r => exact h.builder (Nat.le_refl _) rfl fun _ hi => hi

theorem define (hc : c₀.Below c) {l : Label} (hl : l ∈ c.owed) (hnot : l ∉ c.withheld) :
    Ensures (Kept c) (Recipe.define l) (fun _ => Kept c) (Kept c₀) := by
  refine operation fun failed b n h => ?_
  rw [Primitive.build, Build.perform_define]
  by_cases hold : l ∈ b.defined
  · rw [if_pos hold]
    exact h.mono hc
  · rw [if_neg hold]
    apply h.define (.inr (h.owed l hl))
    rintro l' - hl' rfl
    exact hl'.elim hnot (absurd hl)

theorem jump (l : Label) : Ensures (Kept c) (Recipe.jump l) (fun _ => Kept (c.aim [l])) E :=
  operation fun _ _ _ h => h.aim l

/-- The bodies of a control structure, while it withholds a label to which the stream jumps. -/
theorem losing (hc : c₀.Below c) {l : Label} (hl : l ∈ c.withheld) (haimed : l ∈ c.aimed)
    (hnot : l ∉ c₀.owed) {x : Recipe Notes Unit} {Q : Unit → Bool → Builder → Notes → Prop}
    (h : Ensures (Kept c) x Q fun _ => Kept c false) :
    Ensures (Kept c) (Recipe.body x) Q (Kept c₀) :=
  body h fun _ _ _ h => h.lose hc hl haimed hnot

/-- A control structure ends: the label that it withheld is defined, and nothing is owed any more.
-/
theorem settle {l : Label} {owed : List Label} (labels labels' : List Label) (hl : l ∈ owed)
    (hnot : l ∉ c.withheld) :
    Ensures (Kept (((c.enter owed [l]).aim labels).aim labels')) (Recipe.define l)
      (fun _ => Kept (c.aim labels')) (Kept c) := by
  let c' := (c.enter owed []).aim labels'
  have hdefine : Ensures (Kept c') (Recipe.define l) (fun _ => Kept c') (Kept c) :=
    .define (Custody.below_enter.aim _) (List.mem_append_left c.owed hl) hnot
  have hsettled : c'.Below (((c.enter owed [l]).aim labels).aim labels') :=
    ((Custody.enter_below_enter (List.nil_subset [l])).aim labels).aim_aim labels'
  exact hdefine.mono (fun _ _ _ h => h.mono hsettled)
    (fun _ _ _ _ h => h.mono (Custody.below_enter.aim_aim labels')) fun _ _ _ h => h

end Ensures

namespace Keeps

theorem mono {p : Recipe Notes α} {known' : List Label} (h : Keeps known p)
    (hsub : known ⊆ known') : Keeps known' p :=
  fun c hc => h c fun l hl => hc l (hsub hl)

theorem bind {β : Type} {x : Recipe Notes α} {f : α → Recipe Notes β} (hx : Keeps known x)
    (hf : ∀ a, Keeps known (f a)) : Keeps known (x >>= f) :=
  fun c hc => .bind (hx c hc) fun a => hf a c hc

theorem pure (a : α) : Keeps known (Pure.pure a) :=
  fun _ _ => .pure fun _ _ _ h => h

theorem throw (e : BuildError) : Keeps known (Recipe.throw e : Recipe Notes α) :=
  fun _ _ => .throw fun _ _ _ h => h

theorem attempt {x : Recipe Notes α} (h : Keeps known x) : Keeps known (Recipe.attempt x) :=
  fun c hc => .attempt (h c hc)

theorem quiet {op : Primitive α} (hop : op.Quiet) : Keeps known (operation op) :=
  fun c _ => .quiet (Custody.Below.refl c) hop

theorem jump (l : Label) : Keeps known (Recipe.jump l) :=
  quiet trivial

theorem tolerates {p : Recipe Notes α} (h : Keeps known p) : Tolerates known p := by
  intro c hc
  refine (h c hc).mono (fun _ _ _ h => h) (fun _ _ _ _ h => h) fun failed b n hkept => ?_
  exact { hkept with lost := nofun }

end Keeps

namespace Tolerates

/-- A failure of the body is passed on. -/
theorem body {x : Recipe Notes Unit} (h : Tolerates known x) : Tolerates known (Recipe.body x) :=
  fun c hc => .body (h c hc) fun _ _ _ h => h

theorem bind {β : Type} {x : Recipe Notes α} {f : α → Recipe Notes β} (hx : Tolerates known x)
    (hf : ∀ a, Tolerates known (f a)) : Tolerates known (x >>= f) :=
  fun c hc => .bind (hx c hc) fun a => hf a c hc

end Tolerates

/-! ### Control structures -/

theorem Keeps.block {inside : Scope → Recipe Notes Unit}
    (h : ∀ scope, Keeps (scope.finish :: scope.start :: known) (inside scope)) :
    Keeps known (Recipe.block inside) := by
  intro c hc
  refine .fresh (by decide) fun start _ hstart => .fresh (by decide) fun finish _ hfinish => ?_
  have hfinish' : finish ∉ c.withheld := fun h => hfinish (List.mem_cons_of_mem _ h)
  -- the labels are given to the inside, so they are not withheld from here on
  let c' := c.enter [finish, start] []
  have hfrees : c'.Frees (finish :: start :: known) :=
    List.forall_mem_cons.2 ⟨⟨by simp [c', Custody.enter], hfinish'⟩,
      List.forall_mem_cons.2 ⟨⟨by simp [c', Custody.enter], hstart⟩, hc.enter nofun⟩⟩
  have hinside : Ensures (Kept c') (inside { start, finish }) (fun _ => Kept c') (Kept c) :=
    (h _ c' hfrees).mono (fun _ _ _ h => h) (fun _ _ _ _ h => h)
      fun _ _ _ h => h.mono Custody.below_enter
  have hend : Ensures (Kept c') (Recipe.define finish) (fun _ => Kept c) (Kept c) :=
    (Ensures.define Custody.below_enter (hfrees finish (by simp)).1 hfinish').mono
      (fun _ _ _ h => h) (fun _ _ _ _ h => h.mono Custody.below_enter) fun _ _ _ h => h
  have hentered : c'.Below (c.enter [finish, start] [finish, start]) :=
    Custody.enter_below_enter (List.nil_subset _)
  refine .before hentered ?_
  exact .bind (.define Custody.below_enter (hfrees start (by simp)).1 hstart) fun _ =>
    .bind hinside fun _ => hend

/-- A dispatch withholds the label of its end while its bodies are built. If the first body leaves a
jump to some labels, so does the dispatch. -/
theorem Ensures.cases (labels : List Label) {r : Reg} {empty one hash : Recipe Notes Unit}
    (hc : c.Frees known)
    (hempty : ∀ c' : Custody, c'.Frees known →
      Ensures (Kept c') empty (fun _ => Kept (c'.aim labels)) fun _ => Kept c' false)
    (hone : Tolerates known one) (hhash : Tolerates known hash) :
    Ensures (Kept c) (Recipe.cases r empty one hash) (fun _ => Kept (c.aim labels)) (Kept c) := by
  refine .fresh (by decide) fun onEmpty _ hnotEmpty => .fresh (by decide) fun onOne _ hnotOne =>
    .fresh (by decide) fun onHash _ hnotHash => .fresh (by decide) fun post hpost hnotPost => ?_
  simp only [Custody.enter, List.cons_append, List.nil_append, List.mem_cons, not_or]
    at hnotOne hnotHash hpost hnotPost
  -- from now on all four labels are owed, but only the last one is withheld
  let owed := [post, onHash, onOne, onEmpty]
  let c₁ := c.enter owed [post]
  let c₂ := c₁.aim [post]
  let c₃ := c₂.aim labels
  have hbelow₁ : c.Below c₁ := Custody.below_enter
  have hbelow₂ : c.Below c₂ := hbelow₁.aim _
  have hbelow₃ : c.Below c₃ := hbelow₂.aim _
  have hfrees : c₁.Frees known := hc.enter (by simpa using hpost.2.2.2)
  have howed : ∀ l ∈ owed, l ∈ c₁.owed := fun l hl => List.mem_append_left c.owed hl
  have hnot : ∀ l, post ≠ l → l ∉ c.withheld → l ∉ c₁.withheld := fun l hne hl =>
    List.not_mem_cons_of_ne_of_not_mem (Ne.symm hne) hl
  have haimed : post ∈ c₃.aimed := List.mem_append_right labels List.mem_cons_self
  have hentered : c₁.Below (c.enter owed owed) := Custody.enter_below_enter (by simp [owed])
  refine .before hentered ?_
  exact .bind (.quiet hbelow₁ trivial) fun _ => .bind (.quiet hbelow₁ trivial) fun _ =>
    .bind (.quiet hbelow₁ trivial) fun _ => .bind (.quiet hbelow₁ trivial) fun _ =>
    .bind (.jump post) fun _ =>
    .bind (.define hbelow₂ (howed onEmpty (by simp [owed])) (hnot _ hpost.2.2.1 hnotEmpty)) fun _ =>
    .bind (.losing hbelow₂ List.mem_cons_self List.mem_cons_self hpost.2.2.2 (hempty c₂ hfrees))
      fun _ =>
    .bind (.quiet hbelow₃ trivial) fun _ =>
    .bind (.define hbelow₃ (howed onOne (by simp [owed])) (hnot _ hpost.2.1 hnotOne.2)) fun _ =>
    .bind (.losing hbelow₃ List.mem_cons_self haimed hpost.2.2.2 (hone c₃ hfrees)) fun _ =>
    .bind (.quiet hbelow₃ trivial) fun _ =>
    .bind (.define hbelow₃ (howed onHash (by simp [owed])) (hnot _ hpost.1 hnotHash.2.2)) fun _ =>
    .bind (.losing hbelow₃ List.mem_cons_self haimed hpost.2.2.2 (hhash c₃ hfrees)) fun _ =>
    .settle [post] labels List.mem_cons_self hnotPost.2.2.2

namespace Keeps

theorem cases {r : Reg} {empty one hash : Recipe Notes Unit} (hempty : Tolerates known empty)
    (hone : Tolerates known one) (hhash : Tolerates known hash) :
    Keeps known (Recipe.cases r empty one hash) :=
  fun _ hc => Ensures.cases [] hc hempty hone hhash

theorem loopOn {r : Reg} {one hash : Scope → Recipe Notes Unit}
    (hone : ∀ scope, Tolerates (scope.finish :: scope.start :: known) (one scope))
    (hhash : ∀ scope, Tolerates (scope.finish :: scope.start :: known) (hash scope)) :
    Keeps known (Recipe.loopOn r one hash) :=
  block fun scope => cases (jump _).tolerates
    (.bind (hone scope).body fun _ => (jump _).tolerates)
    (.bind (hhash scope).body fun _ => (jump _).tolerates)

theorem repeatOn {r : Reg} {one hash : Recipe Notes Unit} (hone : Keeps known one)
    (hhash : Keeps known hash) : Keeps known (Recipe.repeatOn r one hash) :=
  loopOn (fun _ => (hone.mono fun _ h => by simp [h]).tolerates.body)
    fun _ => (hhash.mono fun _ h => by simp [h]).tolerates.body

/-- The loop withholds the label of its end, to which its dispatch jumps. -/
theorem whileNonempty {r : Reg} {inside : Recipe Notes Unit} (h : Keeps known inside) :
    Keeps known (Recipe.whileNonempty r inside) := by
  intro c hc
  refine .fresh (by decide) fun start _ hstart => .fresh (by decide) fun finish hfinish hnot => ?_
  obtain ⟨hne, hfinish⟩ := not_or.1 (List.mem_cons.not.1 hfinish)
  have hnot' : finish ∉ c.withheld := fun h => hnot (List.mem_cons_of_mem _ h)
  let c₁ := c.enter [finish, start] [finish]
  let c₂ := c₁.aim [finish]
  have hbelow₁ : c.Below c₁ := Custody.below_enter
  have hbelow₂ : c.Below c₂ := hbelow₁.aim _
  have hfrees : c₁.Frees known := hc.enter (by simpa using hfinish)
  have hdispatch : Ensures (Kept c₁) (Recipe.cases r (exit { start, finish }) (Pure.pure ())
      (Pure.pure ())) (fun _ => Kept c₂) (Kept c) :=
    (Ensures.cases [finish] hfrees (fun _ _ => .jump finish) (pure ()).tolerates
      (pure ()).tolerates).mono (fun _ _ _ h => h) (fun _ _ _ _ h => h)
        fun _ _ _ h => h.mono hbelow₁
  have hentered : c₁.Below (c.enter [finish, start] [finish, start]) :=
    Custody.enter_below_enter (by simp)
  have hinside : Ensures (Kept c₂) (Recipe.body inside) (fun _ => Kept c₂) (Kept c) :=
    .losing hbelow₂ List.mem_cons_self List.mem_cons_self hfinish (h.tolerates c₂ hfrees)
  have hend : Ensures (Kept c₂) (Recipe.define finish) (fun _ => Kept c) (Kept c) :=
    .settle [finish] [] List.mem_cons_self hnot'
  have hstart' : start ∉ c₁.withheld :=
    List.not_mem_cons_of_ne_of_not_mem (Ne.symm hne) hstart
  refine .before hentered ?_
  exact .bind (.define hbelow₁ (by simp [c₁, Custody.enter]) hstart') fun _ =>
    .bind (.bind hdispatch fun _ => .bind hinside fun _ => .quiet hbelow₂ trivial) fun _ => hend

theorem ofExcept (result : Except BuildError α) : Keeps known (Recipe.ofExcept result) := by
  cases result with
  | ok a => exact pure a
  | error e => exact throw e

theorem withTemp {inside : Reg → Recipe Notes Unit} (h : ∀ temp, Keeps known (inside temp)) :
    Keeps known (Recipe.withTemp inside) :=
  bind (quiet trivial) fun temp => bind (h temp).attempt fun outcome =>
    bind (quiet trivial) fun _ => ofExcept outcome

theorem checkOperands (regs : List Reg) : Keeps known (Recipe.checkOperands regs) := by
  induction regs with
  | nil => exact pure ()
  | cons r rest ih =>
    refine bind (quiet trivial) fun _ => ?_
    split
    · exact bind (throw _) fun _ => ih
    · exact ih

end Keeps

end Recipe

theorem Structured.keeps_recipe {k : Nat} (p : Structured k) (scopes : Fin k → Scope)
    (known : List Label) : Recipe.Keeps known (p.recipe scopes) := by
  induction p generalizing known with
  | write symbol r => exact .quiet trivial
  | comment text => exact .quiet trivial
  | nop => exact .quiet trivial
  | operands regs => exact .checkOperands regs
  | seq p q ihp ihq => exact .bind (ihp scopes known) fun _ => ihq scopes known
  | restart k => exact .quiet trivial
  | exit k => exact .quiet trivial
  | cases r empty one hash ihe iho ihh =>
    exact .cases (ihe scopes known).tolerates (iho scopes known).tolerates
      (ihh scopes known).tolerates
  | block inside ih => exact .block fun scope => ih _ _
  | loopOn r one hash iho ihh =>
    exact .loopOn (fun _ => (iho _ _).tolerates) fun _ => (ihh _ _).tolerates
  | repeatOn r one hash iho ihh => exact .repeatOn (iho scopes known) (ihh scopes known)
  | whileNonempty r inside ih => exact .whileNonempty (ih scopes known)
  | withTemp inside ih => exact .withTemp fun temp => ih temp scopes known

theorem Recipe.Keeps.routine (r : Routine) (regs : List Reg) (known : List Label) :
    Recipe.Keeps known (Recipe.routine r regs) := by
  unfold Recipe.routine
  split
  · exact .throw _
  next c _ => exact .bind (.quiet trivial) fun _ => (Structured.call c).keeps_recipe Fin.elim0 known

/-! ### Scripts -/

namespace Recipe.Keeps

variable {α : Type} {known : List Label}

theorem getClient : Keeps known (Recipe.getClient : Recipe Notes Notes) := by
  intro c hc failed b n h
  show Kept c (failed || false) b n
  rwa [Bool.or_false]

theorem getBuilder : Keeps known (Recipe.getBuilder : Recipe Notes Builder) := by
  intro c hc failed b n h
  show Kept c (failed || false) b n
  rwa [Bool.or_false]

theorem reg (r : RegRef) : Keeps known (Recipe.reg r) :=
  bind getClient fun _ => pure _

/-- Changing the notes, but not the labels in slots. -/
theorem note {f : Notes → Notes} (hf : ∀ n, (f n).labels = n.labels) :
    Keeps known (modifyClient f) :=
  fun _ _ => .modifyClient fun _ _ n h => h.notes (hf n)

theorem tell (v : Value) : Keeps known (Recipe.tell v) :=
  note fun _ => rfl

theorem keepLabel {slot : Option String} {l : Label} (hl : l ∈ known) :
    Keeps known (Recipe.keepLabel slot l) := by
  cases slot with
  | none => exact pure ()
  | some name =>
    intro c hc
    exact .modifyClient fun failed b n h => h.setLabel (h.owed l (hc l hl).1) (hc.ne hl) name

theorem keepScope {slot : Option String} {scope : Scope} (hstart : scope.start ∈ known)
    (hfinish : scope.finish ∈ known) : Keeps known (Recipe.keepScope slot scope) := by
  cases slot with
  | none => exact pure ()
  | some name =>
    intro c hc
    refine .modifyClient fun failed b n h => ?_
    have hset := (h.setLabel (h.owed _ (hc _ hstart).1) (hc.ne hstart) (name ++ ".start")).setLabel
      (h.owed _ (hc _ hfinish).1) (hc.ne hfinish) (name ++ ".end")
    exact hset.notes rfl

/-- A script makes a label, which is then in a slot or nobody's. -/
theorem fresh {hint : String} (slot : Option String) (hhint : ¬ EndsInDigit hint) :
    Keeps known (Step.fresh hint slot).recipe := by
  intro c hc
  rw [Step.recipe]
  refine .fresh hhint fun l _ hl => .before (Custody.enter_below_enter (List.nil_subset _)) ?_
  have hfrees : (c.enter [l] []).Frees [l] :=
    List.forall_mem_singleton.2 ⟨List.mem_cons_self, hl⟩
  have hkeeps : Keeps [l] (do Recipe.tell (.label l); Recipe.keepLabel slot l) :=
    bind (tell _) fun _ => keepLabel List.mem_cons_self
  exact (hkeeps _ hfrees).mono (fun _ _ _ h => h) (fun _ _ _ _ h => h.mono Custody.below_enter)
    fun _ _ _ h => h.mono Custody.below_enter

/-- A script defines the label in a slot, which is not withheld. -/
theorem defineSlot (slot : String) : Keeps known (Step.define slot).recipe := by
  intro c hc
  rw [Step.recipe]
  refine .getClient fun n₀ => .operation fun failed b n ⟨hn, h⟩ => ?_
  subst hn
  have hlabel : n.label slot = ⟨""⟩ ∨ ∃ e ∈ n.labels, e.2 = n.label slot := by
    rw [Notes.label]
    cases hl : n.labels.lookup slot with
    | none => exact .inl rfl
    | some l => exact .inr ⟨_, mem_of_lookup_eq_some hl, rfl⟩
  rw [Primitive.build, Build.perform_define]
  by_cases hold : n.label slot ∈ b.defined
  · rw [if_pos hold]
    exact h
  · rw [if_neg hold]
    apply h.define
    · rcases hlabel with hempty | ⟨e, he, hl⟩
      · exact .inl hempty
      · exact .inr (hl ▸ h.slots e he)
    · intro l' hwithheld _ hl'
      rcases hlabel with hempty | ⟨e, he, hl⟩
      · exact hwithheld.made.ne_empty (hl'.trans hempty)
      · exact hwithheld.noSlot e he (hl.trans hl'.symm)

end Recipe.Keeps

mutual

theorem Step.keeps_recipe {requests : List Operation}
    (hhints : ∀ hint, .fresh hint ∈ requests → ¬ EndsInDigit hint) (step : Step)
    (h : step.requests ⊆ requests) (known : List Label) : Recipe.Keeps known step.recipe := by
  match step with
  | .fresh hint slot => exact .fresh slot (hhints hint (h List.mem_cons_self))
  | .define label => exact .defineSlot label
  | .jump label => exact .bind .getClient fun _ => .jump _
  | .emit i => exact .quiet trivial
  | .write s r => exact .bind (.reg r) fun _ => .quiet trivial
  | .case r => exact .bind (.reg r) fun _ => .quiet trivial
  | .check r => exact .bind (.reg r) fun _ => .bind (.quiet trivial) fun _ => .tell _
  | .comment text => exact .quiet trivial
  | .nop => exact .quiet trivial
  | .size => exact .bind .getBuilder fun _ => .tell _
  | .isEmpty => exact .bind .getBuilder fun _ => .tell _
  | .alloc slot =>
    exact .bind (.quiet trivial) fun _ => .bind (.tell _) fun _ => .note fun _ => rfl
  | .free r => exact .bind (.reg r) fun _ => .quiet trivial
  | .block slot body =>
    rw [Step.recipe]
    rw [Step.requests] at h
    exact .block fun _ => .bind (.keepScope (by simp) (by simp)) fun _ =>
      keeps_recipeAll hhints body h _
  | .restart scope => exact .bind .getClient fun _ => .jump _
  | .exit scope => exact .bind .getClient fun _ => .jump _
  | .cases r empty one hash =>
    rw [Step.recipe]
    rw [Step.requests] at h
    obtain ⟨h, hhash⟩ := List.append_subset.1 h
    obtain ⟨hempty, hone⟩ := List.append_subset.1 h
    exact .bind (.reg r) fun _ => .cases (keeps_recipeAll hhints empty hempty known).tolerates
      (keeps_recipeAll hhints one hone known).tolerates
      (keeps_recipeAll hhints hash hhash known).tolerates
  | .loopOn r slot one hash =>
    rw [Step.recipe]
    rw [Step.requests] at h
    obtain ⟨hone, hhash⟩ := List.append_subset.1 h
    exact .bind (.reg r) fun _ => .loopOn
      (fun _ => (Recipe.Keeps.bind (.keepScope (by simp) (by simp)) fun _ =>
        keeps_recipeAll hhints one hone _).tolerates)
      (fun _ => (Recipe.Keeps.bind (.keepScope (by simp) (by simp)) fun _ =>
        keeps_recipeAll hhints hash hhash _).tolerates)
  | .repeatOn r one hash =>
    rw [Step.recipe]
    rw [Step.requests] at h
    obtain ⟨hone, hhash⟩ := List.append_subset.1 h
    exact .bind (.reg r) fun _ => .repeatOn (keeps_recipeAll hhints one hone known)
      (keeps_recipeAll hhints hash hhash known)
  | .whileNonempty r body =>
    rw [Step.recipe]
    rw [Step.requests] at h
    exact .bind (.reg r) fun _ => .whileNonempty (keeps_recipeAll hhints body h known)
  | .withTemp slot body =>
    rw [Step.recipe]
    rw [Step.requests] at h
    exact .withTemp fun _ => .bind (.tell _) fun _ => .bind (.note fun _ => rfl) fun _ =>
      keeps_recipeAll hhints body h known
  | .call c => exact .bind .getClient fun _ => (Structured.call _).keeps_recipe _ known
  | .routine r operands => exact .bind .getClient fun _ => .routine r _ known
  | .attempt body =>
    rw [Step.recipe]
    rw [Step.requests] at h
    exact .bind (keeps_recipeAll hhints body h known).attempt fun _ => .tell _

theorem keeps_recipeAll {requests : List Operation}
    (hhints : ∀ hint, .fresh hint ∈ requests → ¬ EndsInDigit hint) (steps : List Step)
    (h : requestsAll steps ⊆ requests) (known : List Label) :
    Recipe.Keeps known (recipeAll steps) := by
  match steps with
  | [] => exact .pure ()
  | step :: rest =>
    obtain ⟨hstep, hrest⟩ := List.append_subset.1 h
    exact .bind (step.keeps_recipe hhints hstep known) fun _ =>
      keeps_recipeAll hhints rest hrest known

end

theorem Script.keeps_recipe {requests : List Operation}
    (hhints : ∀ hint, .fresh hint ∈ requests → ¬ EndsInDigit hint) (script : Script)
    (h : requestsAll script ⊆ requests) : Recipe.Keeps [] (recipe script) := by
  induction script with
  | nil => exact .pure ()
  | cons step rest ih =>
    obtain ⟨hstep, hrest⟩ := List.append_subset.1 h
    exact .bind (.note fun _ => rfl) fun _ =>
      .bind (step.keeps_recipe hhints hstep []).attempt fun _ => ih hrest

/-! ## No program -/

/-- A body that fails in a script also fails in a longer one. -/
theorem Script.bodyFails_append {before : Script} (after : Script) {b : Builder} {n : Notes}
    (h : (recipe before).bodyFails b n = true) :
    (recipe (before ++ after)).bodyFails b n = true := by
  induction before generalizing b n with
  | nil => cases h
  | cons step rest ih =>
    have hcons : ∀ rest : Script, (recipe (step :: rest)).bodyFails b n =
        (false || (step.recipe.bodyFails b { n with values := #[] } ||
          (recipe rest).bodyFails (step.recipe.build.perform b { n with values := #[] }).2.1
            (step.recipe.build.perform b { n with values := #[] }).2.2)) := fun _ => rfl
    rw [hcons, Bool.false_or, Bool.or_eq_true] at h
    show (recipe (step :: (rest ++ after))).bodyFails b n = true
    rw [hcons, Bool.false_or, Bool.or_eq_true]
    exact h.imp_right ih

/-- The custody of labels at the beginning of a session. -/
theorem kept_startingAt (base : Nat) : Kept ⟨[], [], []⟩ false (.startingAt base) {} :=
  ⟨nofun, nofun, nofun, nofun, nofun, nofun⟩

/-- A build that failed inside a control structure yields no program. In a session without
unchecked instructions and without hints that end in a digit, once the body of a control structure
has failed, at any depth and whatever became of the failure, the stream does not resolve, whatever
steps are made afterwards; and then nothing is written. -/
theorem failed_body_yields_no_program (before after : Script) (base : Nat)
    (hraw : ∀ i, .emit i ∉ requestsAll (before ++ after))
    (hhints : ∀ hint, .fresh hint ∈ requestsAll (before ++ after) → ¬ EndsInDigit hint)
    (hfails : (Script.recipe before).bodyFails (.startingAt base) {} = true) :
    let code := (Script.run (before ++ after) (.startingAt base)).2.code.toList
    ∃ e, resolve code = .error e ∧
      ∀ style output, (assemble code style).run.run output = (.error (.resolve e), output) := by
  intro code
  have hagree := Recipe.labelsAgree
    (Script.checked_recipe hraw (before ++ after) (List.Subset.refl _)) base {}
  have hkept := (Script.keeps_recipe hhints (before ++ after) (List.Subset.refl _) ⟨[], [], []⟩
    nofun false (.startingAt base) {} (kept_startingAt base)).of_same
  rw [Script.bodyFails_append after hfails] at hkept
  obtain ⟨l, -, hlost, hjump⟩ := hkept.lost rfl
  have hundefined := hlost.undefined
  rw [hagree.2] at hundefined
  rw [Script.perform_recipe] at hjump hundefined
  cases hresolve : resolve code with
  | ok p =>
    exact absurd (mem_definedLabels_of_resolve hresolve (Array.mem_toList_iff.2 hjump)) hundefined
  | error e =>
    refine ⟨e, rfl, fun style output => ?_⟩
    rw [assemble, assembleBy, hresolve]
    rfl

/-- A loop that fails inside a loop, the failure caught; and then more steps, that make and define a
label under a hint of the control structures. -/
theorem failed_body_yields_no_program_nestedLoop :
    let inner : Step := .whileNonempty (.number 2) [.write .one (.number 0)]
    let before : Script := [.attempt [.loopOn (.number 1) none [inner] []]]
    let after : Script := [.fresh "post" (some "p"), .define "p", .block none []]
    (Script.recipe before).bodyFails (.startingAt 1000) {} = true ∧
    ∃ e, resolve (Script.run (before ++ after) (.startingAt 1000)).2.code.toList = .error e := by
  intro inner before after
  have hfails : (Script.recipe before).bodyFails (.startingAt 1000) {} = true := by
    decide +kernel
  have hrequests : requestsAll (before ++ after) = [.fresh "post"] := rfl
  have hraw : ∀ i, .emit i ∉ requestsAll (before ++ after) := by
    simp [hrequests]
  have hhints : ∀ hint, .fresh hint ∈ requestsAll (before ++ after) → ¬ EndsInDigit hint := by
    intro hint hmem
    rw [hrequests, List.mem_singleton] at hmem
    obtain rfl := Operation.fresh.inj hmem
    decide
  obtain ⟨e, he, -⟩ := failed_body_yields_no_program before after 1000 hraw hhints hfails
  exact ⟨hfails, e, he⟩

end TextMachine
