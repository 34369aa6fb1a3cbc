import TextMachine.Lifting
import Mathlib.Data.List.Nodup

/-!
# Where the instructions of a stream end up

Resolving a stream counts its real instructions twice: once to place the labels, once to emit the
operations. Both counts are the *extent* of what stands before, and `loaded_of_resolve` says what
comes of it: the operation of every real instruction stands at the extent of the stream before it,
and every label stands for the extent of the stream before its definition. Everything that is said
about runs of resolved programs starts from there, one instruction of the stream at a time.

`AllAt` is the common form of such statements: something holds of every instruction at its position.
Its instances are `Loaded`, `Placed` and `Resolves`: a program holds a stream, labels stand where a
table says, and every instruction has an operation.
-/

namespace TextMachine

/-! ## Extents -/

/-- The number of positions that a stream takes in the finished program. -/
def extent : List Instruction → Nat
  | [] => 0
  | i :: rest => i.width + extent rest

@[simp] theorem extent_nil : extent [] = 0 := rfl

@[simp] theorem extent_cons (i : Instruction) (rest : List Instruction) :
    extent (i :: rest) = i.width + extent rest := rfl

@[simp] theorem extent_append (a b : List Instruction) :
    extent (a ++ b) = extent a + extent b := by
  induction a with
  | nil => simp
  | cons i rest ih =>
    rw [List.cons_append, extent_cons, extent_cons, ih]
    omega

theorem extent_eq_take_add_drop (code : List Instruction) (i : Nat) :
    extent code = extent (code.take i) + extent (code.drop i) := by
  rw [← extent_append, List.take_append_drop]

namespace Instruction

@[simp] theorem width_write (s : Symbol) (r : Reg) : (write s r).width = 1 := rfl

@[simp] theorem width_case (r : Reg) : (case r).width = 1 := rfl

@[simp] theorem width_jump (l : Label) : (jump l).width = 1 := rfl

@[simp] theorem width_setLabel (l : Label) : (setLabel l).width = 0 := rfl

@[simp] theorem width_comment (text : String) : (comment text).width = 0 := rfl

@[simp] theorem width_nop : nop.width = 0 := rfl

end Instruction

/-! ## Streams position by position -/

/-- Every instruction of a stream that starts at position `here` satisfies `P` where it stands. -/
def AllAt (P : Nat → Instruction → Prop) : (here : Nat) → List Instruction → Prop
  | _, [] => True
  | here, i :: rest => P here i ∧ AllAt P (here + i.width) rest

section AllAt

variable {P : Nat → Instruction → Prop} {here : Nat}

@[simp] theorem allAt_nil : AllAt P here [] := trivial

@[simp] theorem allAt_cons {i : Instruction} {rest : List Instruction} :
    AllAt P here (i :: rest) ↔ P here i ∧ AllAt P (here + i.width) rest := Iff.rfl

@[simp] theorem allAt_append {a b : List Instruction} :
    AllAt P here (a ++ b) ↔ AllAt P here a ∧ AllAt P (here + extent a) b := by
  induction a generalizing here with
  | nil => simp
  | cons i rest ih =>
    rw [List.cons_append, allAt_cons, ih, allAt_cons, extent_cons, and_assoc, Nat.add_assoc]

theorem AllAt.of_eq {here' : Nat} {code : List Instruction} (h : AllAt P here code)
    (hhere : here = here') : AllAt P here' code :=
  hhere ▸ h

/-- Every instruction stands at the extent of what comes before it. -/
theorem AllAt.of_getElem? {code : List Instruction} {j : Nat} {i : Instruction}
    (h : AllAt P here code) (hj : code[j]? = some i) : P (here + extent (code.take j)) i := by
  induction code generalizing here j with
  | nil => cases hj
  | cons first rest ih =>
    cases j with
    | zero =>
      cases hj
      exact h.1
    | succ j =>
      have hi := ih h.2 hj
      rwa [Nat.add_assoc, ← extent_cons, ← List.take_succ_cons] at hi

theorem allAt_of_getElem? {code : List Instruction}
    (h : ∀ j i, code[j]? = some i → P (here + extent (code.take j)) i) : AllAt P here code := by
  induction code generalizing here with
  | nil => trivial
  | cons first rest ih =>
    refine ⟨h 0 first rfl, ih fun j i hj => ?_⟩
    have hi := h (j + 1) i hj
    rwa [List.take_succ_cons, extent_cons, ← Nat.add_assoc] at hi

end AllAt

/-! ## Names of labels -/

/-- The number in the name of a label. -/
def Label.counter (l : Label) : Nat :=
  Nat.ofDigitChars 10 (l.name.toList.dropWhile (!·.isDigit)) 0

/-- The counter of a label can be read off its name, if the hint has no digits. -/
theorem Label.counter_numbered (hint : String) (hhint : hint.toList.all (!·.isDigit)) (n : Nat) :
    (numbered hint n).counter = n := by
  show Nat.ofDigitChars 10 ((hint ++ n.repr).toList.dropWhile (!·.isDigit)) 0 = n
  -- what is left of the name without its digit-free beginning are the digits of the counter
  rw [String.toList_append, List.dropWhile_append_of_pos (List.all_eq_true.1 hhint),
    Nat.toList_repr]
  cases hdigits : Nat.toDigits 10 n with
  | nil => exact absurd hdigits Nat.toDigits_ne_nil
  | cons d rest =>
    have hd : d.isDigit = true := by
      apply Nat.isDigit_of_mem_toDigits (b := 10) (n := n) (by decide) (by decide)
      rw [hdigits]
      exact List.mem_cons_self
    rw [List.dropWhile_cons_of_neg (by simp [hd]), ← hdigits, Nat.ofDigitChars_ten_toDigits]

/-! ## Label definitions -/

@[simp] theorem definedLabels_nil : definedLabels [] = [] := rfl

@[simp] theorem definedLabels_append (a b : List Instruction) :
    definedLabels (a ++ b) = definedLabels a ++ definedLabels b :=
  List.filterMap_append

theorem definedLabels_cons (i : Instruction) (rest : List Instruction) :
    definedLabels (i :: rest) = i.definedLabel?.toList ++ definedLabels rest := by
  cases i <;> rfl

theorem labelPositions_cons (here : Nat) (i : Instruction) (rest : List Instruction) :
    labelPositions here (i :: rest) =
      (i.definedLabel?.toList.map fun l => (l, here)) ++
        labelPositions (here + i.width) rest := by
  cases i <;> rfl

theorem labelPositions_append (here : Nat) (a b : List Instruction) :
    labelPositions here (a ++ b) = labelPositions here a ++ labelPositions (here + extent a) b := by
  induction a generalizing here with
  | nil => rfl
  | cons i rest ih =>
    rw [List.cons_append, labelPositions_cons, ih, labelPositions_cons, List.append_assoc,
      extent_cons, Nat.add_assoc]

/-- The labels that have a position are those that are defined, in the same order. -/
theorem map_fst_labelPositions (here : Nat) (code : List Instruction) :
    (labelPositions here code).map Prod.fst = definedLabels code := by
  induction code generalizing here with
  | nil => rfl
  | cons i rest ih =>
    rw [labelPositions_cons, List.map_append, ih, definedLabels_cons, List.map_map]
    exact congrArg (· ++ definedLabels rest) (List.map_id _)

/-- No label stands past the end of its stream. -/
theorem le_of_mem_labelPositions {here : Nat} {code : List Instruction} {e : Label × Nat}
    (h : e ∈ labelPositions here code) : here ≤ e.2 ∧ e.2 ≤ here + extent code := by
  induction code generalizing here with
  | nil => cases h
  | cons i rest ih =>
    rw [labelPositions_cons, List.mem_append] at h
    rw [extent_cons]
    rcases h with h | h
    · obtain ⟨l, -, rfl⟩ := List.mem_map.1 h
      simp only
      omega
    · have := ih h
      omega

/-- In an association list without repeated keys every pair is found. -/
theorem lookup_eq_some_of_mem {α β : Type} [DecidableEq α] {entries : List (α × β)}
    (hkeys : (entries.map Prod.fst).Nodup) {e : α × β} (he : e ∈ entries) :
    entries.lookup e.1 = some e.2 := by
  induction entries with
  | nil => cases he
  | cons head rest ih =>
    rw [List.map_cons, List.nodup_cons] at hkeys
    rw [lookup_cons_eq_ite]
    rcases List.mem_cons.1 he with rfl | he
    · rw [if_pos rfl]
    · have hne : e.1 ≠ head.1 := by
        intro heq
        exact hkeys.1 (heq ▸ List.mem_map_of_mem he)
      rw [if_neg hne]
      exact ih hkeys.2 he

theorem mem_of_lookup_eq_some {α β : Type} [DecidableEq α] {entries : List (α × β)} {a : α} {b : β}
    (h : entries.lookup a = some b) : (a, b) ∈ entries := by
  obtain ⟨before, after, rfl, -⟩ := List.lookup_eq_some_iff.1 h
  exact List.mem_append_right before List.mem_cons_self

theorem mem_definedLabels_of_lookup {here target : Nat} {code : List Instruction} {l : Label}
    (h : (labelPositions here code).lookup l = some target) : l ∈ definedLabels code := by
  rw [← map_fst_labelPositions here]
  exact List.mem_map_of_mem (mem_of_lookup_eq_some h)

/-- Where a label of a stream stands. -/
def labelPlace (code : List Instruction) (l : Label) : Nat :=
  ((labelPositions 0 code).lookup l).getD 0

/-! ## The pieces of a resolution -/

theorem firstRepeated?_eq_none_iff {α : Type} [DecidableEq α] {seen xs : List α} :
    firstRepeated? seen xs = none ↔ xs.Nodup ∧ ∀ x ∈ xs, x ∉ seen := by
  induction xs generalizing seen with
  | nil => simp [firstRepeated?]
  | cons a rest ih =>
    rw [firstRepeated?]
    split
    next hmem => simp [hmem]
    next hmem =>
      -- the head counts as seen from here on, so the rest has to avoid it too
      rw [ih, List.nodup_cons]
      constructor
      · rintro ⟨hnodup, hnew⟩
        refine ⟨⟨fun ha => hnew a ha List.mem_cons_self, hnodup⟩, ?_⟩
        intro x hx
        rcases List.mem_cons.1 hx with rfl | hx
        · exact hmem
        · exact fun hseen => hnew x hx (List.mem_cons_of_mem a hseen)
      · rintro ⟨⟨ha, hnodup⟩, hnew⟩
        refine ⟨hnodup, fun x hx hseen => ?_⟩
        rcases List.mem_cons.1 hseen with rfl | hseen
        · exact ha hx
        · exact hnew x (List.mem_cons_of_mem a hx) hseen

/-- Resolution of a stream whose labels are defined once. -/
theorem resolve_of_nodup {code : List Instruction} (hnodup : (definedLabels code).Nodup) :
    resolve code = do
      let ops ← resolveOps (labelPositions 0 code) 0 code
      return { ops, comments := resolveComments 0 code } := by
  have hnone : firstRepeated? [] (definedLabels code) = none :=
    firstRepeated?_eq_none_iff.2 ⟨hnodup, fun _ _ => List.not_mem_nil⟩
  rw [resolve, hnone]

/-- A stream resolves when no label is defined twice and every instruction has an operation. -/
theorem resolve_eq_ok_iff {code : List Instruction} {p : Program} :
    resolve code = .ok p ↔
      (definedLabels code).Nodup ∧
        resolveOps (labelPositions 0 code) 0 code = .ok p.ops ∧
          resolveComments 0 code = p.comments := by
  obtain ⟨ops, comments⟩ := p
  unfold resolve
  cases hrep : firstRepeated? [] (definedLabels code) with
  | some l =>
    -- a repeated label is reported before anything else is looked at
    have hdup : ¬ (definedLabels code).Nodup := by
      intro hnodup
      have := firstRepeated?_eq_none_iff.2 ⟨hnodup, fun x _ => List.not_mem_nil⟩
      rw [this] at hrep
      cases hrep
    constructor
    · intro h
      cases h
    · intro h
      exact absurd h.1 hdup
  | none =>
    have hnodup := (firstRepeated?_eq_none_iff.1 hrep).1
    cases hops : resolveOps (labelPositions 0 code) 0 code with
    | error e =>
      constructor
      · intro h
        cases h
      · rintro ⟨-, h, -⟩
        cases h
    | ok found =>
      constructor
      · intro h
        cases h
        exact ⟨hnodup, rfl, rfl⟩
      · rintro ⟨-, h, rfl⟩
        cases h
        rfl

/-- A sequence of two steps succeeds when both do. -/
theorem bind_eq_ok_iff {ε α β : Type} {x : Except ε α} {f : α → Except ε β} {b : β} :
    (x >>= f) = .ok b ↔ ∃ a, x = .ok a ∧ f a = .ok b := by
  cases x with
  | error e =>
    constructor
    · intro h
      cases h
    · rintro ⟨a, h, -⟩
      cases h
  | ok a =>
    constructor
    · intro h
      exact ⟨a, rfl, h⟩
    · rintro ⟨_, h, hf⟩
      cases h
      exact hf

/-- A stream has operations when its first instruction has and the rest has. -/
theorem resolveOps_cons_eq_ok_iff {positions : List (Label × Nat)} {here : Nat} {i : Instruction}
    {rest : List Instruction} {ops : List Op} :
    resolveOps positions here (i :: rest) = .ok ops ↔
      ∃ op? later, i.resolve positions here = .ok op? ∧
        resolveOps positions (here + i.width) rest = .ok later ∧ ops = op?.toList ++ later := by
  rw [resolveOps, bind_eq_ok_iff]
  constructor
  · rintro ⟨op?, hi, h⟩
    obtain ⟨later, hrest, h⟩ := bind_eq_ok_iff.1 h
    cases h
    exact ⟨op?, later, hi, hrest, rfl⟩
  · rintro ⟨op?, later, hi, hrest, rfl⟩
    exact ⟨op?, hi, bind_eq_ok_iff.2 ⟨later, hrest, rfl⟩⟩

/-! ## Single instructions -/

/-- The jump from one position to another. -/
def Op.between (here target : Nat) : Op :=
  if here < target then .forward (target - here) else .backward (here - target)

theorem Label.resolve_eq_ok_iff {l : Label} {here target : Nat} {op : Op} :
    l.resolve here target = .ok op ↔ target ≠ here ∧ op = .between here target := by
  unfold Label.resolve Op.between
  split
  next h =>
    constructor
    · intro heq
      cases heq
      exact ⟨by omega, rfl⟩
    · rintro ⟨-, rfl⟩
      rfl
  next h =>
    split
    next h' =>
      constructor
      · intro heq
        cases heq
        exact ⟨by omega, rfl⟩
      · rintro ⟨-, rfl⟩
        rfl
    next h' =>
      constructor
      · intro heq
        cases heq
      · rintro ⟨hne, -⟩
        omega

theorem Reg.resolve_eq_ok_iff {r q : Reg} : r.resolve = .ok q ↔ r.index ≠ 0 ∧ q = r := by
  unfold Reg.resolve
  split
  next h =>
    constructor
    · intro heq
      cases heq
    · rintro ⟨hne, -⟩
      exact absurd h hne
  next h =>
    constructor
    · intro heq
      cases heq
      exact ⟨h, rfl⟩
    · rintro ⟨-, rfl⟩
      rfl

namespace Instruction

variable {positions : List (Label × Nat)} {here : Nat} {op? : Option Op}

theorem resolve_write_eq_ok_iff {s : Symbol} {r : Reg} :
    (write s r).resolve positions here = .ok op? ↔
      r.index ≠ 0 ∧ op? = some (.write s r) := by
  rw [resolve, bind_eq_ok_iff]
  simp only [Reg.resolve_eq_ok_iff]
  constructor
  · rintro ⟨_, ⟨hne, rfl⟩, h⟩
    cases h
    exact ⟨hne, rfl⟩
  · rintro ⟨hne, rfl⟩
    exact ⟨r, ⟨hne, rfl⟩, rfl⟩

theorem resolve_case_eq_ok_iff {r : Reg} :
    (case r).resolve positions here = .ok op? ↔ r.index ≠ 0 ∧ op? = some (.case r) := by
  rw [resolve, bind_eq_ok_iff]
  simp only [Reg.resolve_eq_ok_iff]
  constructor
  · rintro ⟨_, ⟨hne, rfl⟩, h⟩
    cases h
    exact ⟨hne, rfl⟩
  · rintro ⟨hne, rfl⟩
    exact ⟨r, ⟨hne, rfl⟩, rfl⟩

theorem resolve_jump_eq_ok_iff {l : Label} :
    (jump l).resolve positions here = .ok op? ↔
      ∃ target, positions.lookup l = some target ∧ target ≠ here ∧
        op? = some (.between here target) := by
  rw [resolve]
  cases positions.lookup l with
  | none =>
    constructor
    · intro h
      cases h
    · rintro ⟨target, h, -⟩
      cases h
  | some target =>
    simp only [bind_eq_ok_iff, Label.resolve_eq_ok_iff]
    constructor
    · rintro ⟨_, ⟨hne, rfl⟩, h⟩
      cases h
      exact ⟨target, rfl, hne, rfl⟩
    · rintro ⟨_, h, hne, rfl⟩
      cases h
      exact ⟨_, ⟨hne, rfl⟩, rfl⟩

/-- Markers become no operation, and real instructions one. -/
theorem length_toList_resolve {i : Instruction} (h : i.resolve positions here = .ok op?) :
    op?.toList.length = i.width := by
  cases i with
  | write s r =>
    obtain ⟨-, rfl⟩ := resolve_write_eq_ok_iff.1 h
    rfl
  | case r =>
    obtain ⟨-, rfl⟩ := resolve_case_eq_ok_iff.1 h
    rfl
  | jump l =>
    obtain ⟨target, -, -, rfl⟩ := resolve_jump_eq_ok_iff.1 h
    rfl
  | setLabel l =>
    cases h
    rfl
  | comment text =>
    cases h
    rfl
  | nop =>
    cases h
    rfl

end Instruction

theorem length_resolveOps {positions : List (Label × Nat)} {here : Nat} {code : List Instruction}
    {ops : List Op} (h : resolveOps positions here code = .ok ops) :
    ops.length = extent code := by
  induction code generalizing here ops with
  | nil =>
    cases h
    rfl
  | cons i rest ih =>
    obtain ⟨op?, later, hi, hrest, rfl⟩ := resolveOps_cons_eq_ok_iff.1 h
    rw [List.length_append, Instruction.length_toList_resolve hi, ih hrest, extent_cons]

/-! ## Streams that resolve -/

/-- An instruction at position `here` has an operation, where `positions` says where the labels
stand. -/
def Instruction.Resolves (positions : List (Label × Nat)) (here : Nat) : Instruction → Prop
  | write _ r => r.index ≠ 0
  | case r => r.index ≠ 0
  | jump l => ∃ target, positions.lookup l = some target ∧ target ≠ here
  | setLabel _ => True
  | comment _ => True
  | nop => True

/-- Every instruction of a stream that starts at position `here` has an operation. -/
abbrev Resolves (positions : List (Label × Nat)) (here : Nat) (code : List Instruction) : Prop :=
  AllAt (Instruction.Resolves positions) here code

/-- The labels that an instruction at position `here` defines stand where `positions` says. -/
def Instruction.Placed (positions : List (Label × Nat)) (here : Nat) : Instruction → Prop
  | setLabel l => positions.lookup l = some here
  | _ => True

/-- The labels of a stream that starts at position `here` stand where `positions` says. -/
abbrev Placed (positions : List (Label × Nat)) (here : Nat) (code : List Instruction) : Prop :=
  AllAt (Instruction.Placed positions) here code

section Resolves

variable {positions : List (Label × Nat)} {here : Nat} {i : Instruction} {code : List Instruction}

theorem Instruction.resolves_iff :
    i.Resolves positions here ↔ ∃ op?, i.resolve positions here = .ok op? := by
  cases i with
  | write s r => simp [Instruction.Resolves, Instruction.resolve_write_eq_ok_iff]
  | case r => simp [Instruction.Resolves, Instruction.resolve_case_eq_ok_iff]
  | jump l =>
    simp only [Instruction.Resolves, Instruction.resolve_jump_eq_ok_iff]
    constructor
    · rintro ⟨target, hl, hne⟩
      exact ⟨_, target, hl, hne, rfl⟩
    · rintro ⟨_, target, hl, hne, -⟩
      exact ⟨target, hl, hne⟩
  | setLabel l => exact ⟨fun _ => ⟨none, rfl⟩, fun _ => trivial⟩
  | comment text => exact ⟨fun _ => ⟨none, rfl⟩, fun _ => trivial⟩
  | nop => exact ⟨fun _ => ⟨none, rfl⟩, fun _ => trivial⟩

theorem resolves_iff :
    Resolves positions here code ↔ ∃ ops, resolveOps positions here code = .ok ops := by
  induction code generalizing here with
  | nil => exact ⟨fun _ => ⟨[], rfl⟩, fun _ => trivial⟩
  | cons i rest ih =>
    show i.Resolves positions here ∧ Resolves positions (here + i.width) rest ↔ _
    rw [ih, Instruction.resolves_iff]
    constructor
    · rintro ⟨⟨op?, hi⟩, later, hrest⟩
      exact ⟨_, resolveOps_cons_eq_ok_iff.2 ⟨op?, later, hi, hrest, rfl⟩⟩
    · rintro ⟨ops, hops⟩
      obtain ⟨op?, later, hi, hrest, -⟩ := resolveOps_cons_eq_ok_iff.1 hops
      exact ⟨⟨op?, hi⟩, later, hrest⟩

theorem placed_of_forall (h : ∀ e ∈ labelPositions here code, positions.lookup e.1 = some e.2) :
    Placed positions here code := by
  induction code generalizing here with
  | nil => trivial
  | cons i rest ih =>
    rw [labelPositions_cons] at h
    refine ⟨?_, ih fun e he => h e (List.mem_append_right _ he)⟩
    cases i with
    | setLabel l => exact h (l, here) (List.mem_append_left _ List.mem_cons_self)
    | write s r => trivial
    | case r => trivial
    | jump l => trivial
    | comment text => trivial
    | nop => trivial

/-- Labels that are defined once stand where they are found. -/
theorem placed_labelPositions (h : (definedLabels code).Nodup) :
    Placed (labelPositions here code) here code := by
  apply placed_of_forall
  intro e he
  apply lookup_eq_some_of_mem _ he
  rwa [map_fst_labelPositions]

end Resolves

/-! ## Loaded code -/

/-- A program holds a jump from one position to another. -/
def JumpsTo (ops : List Op) (here target : Nat) : Prop :=
  ops[here]? = some (.between here target)

/-- What a program holds at position `pc` for an instruction of its stream, where `place` says where
the labels stand. A label definition holds nothing, but says where its label stands. -/
def Instruction.Loaded (place : Label → Nat) (ops : List Op) (pc : Nat) : Instruction → Prop
  | write s r => ops[pc]? = some (.write s r)
  | case r => ops[pc]? = some (.case r)
  | jump l => JumpsTo ops pc (place l)
  | setLabel l => place l = pc
  | comment _ => True
  | nop => True

/-- A program holds the instructions of a stream from position `pc` on. -/
abbrev Loaded (place : Label → Nat) (ops : List Op) (pc : Nat) (code : List Instruction) : Prop :=
  AllAt (Instruction.Loaded place ops) pc code

theorem JumpsTo.of_eq {ops : List Op} {here target here' target' : Nat}
    (h : JumpsTo ops here target) (hhere : here = here') (htarget : target = target') :
    JumpsTo ops here' target' :=
  hhere ▸ htarget ▸ h

/-- The operations found for a stream, put where the stream starts, hold the stream. -/
theorem loaded_of_resolveOps {positions : List (Label × Nat)} {place : Label → Nat} {here : Nat}
    {code : List Instruction} {ops : List Op} (before after : List Op)
    (hfound : ∀ l target, positions.lookup l = some target → place l = target)
    (hplaced : Placed positions here code) (hbefore : before.length = here)
    (h : resolveOps positions here code = .ok ops) :
    Loaded place (before ++ ops ++ after) here code := by
  -- the operations of the rest are seen with one more operation before them, or with none
  induction code generalizing here before ops with
  | nil => trivial
  | cons i rest ih =>
    obtain ⟨op?, later, hi, hrest, rfl⟩ := resolveOps_cons_eq_ok_iff.1 h
    have hwidth := Instruction.length_toList_resolve hi
    refine ⟨?_, ?_⟩
    · have hat : ∀ op, op? = some op →
          (before ++ (op?.toList ++ later) ++ after)[here]? = some op := by
        rintro op rfl
        subst hbefore
        simp
      cases i with
      | write s r => exact hat _ (Instruction.resolve_write_eq_ok_iff.1 hi).2
      | case r => exact hat _ (Instruction.resolve_case_eq_ok_iff.1 hi).2
      | jump l =>
        obtain ⟨target, hl, -, hop⟩ := Instruction.resolve_jump_eq_ok_iff.1 hi
        obtain rfl := hfound l target hl
        exact hat _ hop
      | setLabel l => exact hfound l here hplaced.1
      | comment text => trivial
      | nop => trivial
    · have hstart : (before ++ op?.toList).length = here + i.width := by
        rw [List.length_append, hbefore, hwidth]
      have hlater := ih (before ++ op?.toList) hplaced.2 hstart hrest
      simpa only [List.append_assoc] using hlater

/-- A resolved program holds its stream. -/
theorem loaded_of_resolve {code : List Instruction} {p : Program} (h : resolve code = .ok p) :
    Loaded (labelPlace code) p.ops 0 code := by
  obtain ⟨hnodup, hops, -⟩ := resolve_eq_ok_iff.1 h
  have hfound : ∀ l target, (labelPositions 0 code).lookup l = some target →
      labelPlace code l = target := by
    intro l target hl
    rw [labelPlace, hl, Option.getD_some]
  have hload := loaded_of_resolveOps [] [] hfound (placed_labelPositions hnodup) rfl hops
  rwa [List.nil_append, List.append_nil] at hload

/-- In a stream that resolves, every jump goes to a label of the stream. -/
theorem mem_definedLabels_of_resolve {code : List Instruction} {p : Program} {l : Label}
    (h : resolve code = .ok p) (hjump : .jump l ∈ code) : l ∈ definedLabels code := by
  obtain ⟨-, hops, -⟩ := resolve_eq_ok_iff.1 h
  have hresolves : Resolves (labelPositions 0 code) 0 code := resolves_iff.2 ⟨p.ops, hops⟩
  obtain ⟨j, hj⟩ := List.mem_iff_getElem?.1 hjump
  obtain ⟨target, hl, -⟩ := hresolves.of_getElem? hj
  exact mem_definedLabels_of_lookup hl

theorem length_ops_of_resolve {code : List Instruction} {p : Program}
    (h : resolve code = .ok p) : p.ops.length = extent code :=
  length_resolveOps (resolve_eq_ok_iff.1 h).2.1

end TextMachine
