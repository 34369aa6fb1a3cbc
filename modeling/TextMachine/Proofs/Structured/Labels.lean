import TextMachine.Proofs.Structured.Layout

/-!
# Labels of structured programs

The labels that the code of a structured program defines are numbered from the label counter on,
each number once (`Structured.labelCount_code`), so no label is defined twice. Every jump goes to a
label of the code or of an enclosing scope (`Structured.wired_code`), and the registers of an
allowed program exist. What is left to go wrong when the code is resolved is a jump to its own
position, and that happens in one way only: a block is restarted before it has done anything
(`Structured.resolves_code_iff`).
-/

namespace TextMachine

/-! ## Label numbers -/

/-- How many of the labels that a stream defines have the given number. -/
def labelCount (code : List Instruction) (a : Nat) : Nat :=
  ((definedLabels code).map Label.counter).count a

/-- How many of the `length` numbers from `first` on are the given one. -/
def window (first length a : Nat) : Nat :=
  (List.range' first length).count a

section Counts

variable (a : Nat)

theorem window_add (first m n : Nat) :
    window first (m + n) a = window first m a + window (first + m) n a := by
  rw [window, ← List.range'_append_1, List.count_append]
  rfl

theorem window_le_one (first length : Nat) : window first length a ≤ 1 :=
  List.nodup_iff_count_le_one.1 List.nodup_range' a

@[simp] theorem labelCount_nil : labelCount [] a = 0 := rfl

@[simp] theorem labelCount_append (first second : List Instruction) :
    labelCount (first ++ second) a = labelCount first a + labelCount second a := by
  rw [labelCount, definedLabels_append, List.map_append, List.count_append]
  rfl

theorem labelCount_setLabel (l : Label) (rest : List Instruction) :
    labelCount (.setLabel l :: rest) a = (if l.counter = a then 1 else 0) + labelCount rest a := by
  rw [labelCount, definedLabels_cons, Instruction.definedLabel?, Option.toList_some,
    List.singleton_append, List.map_cons, List.count_cons, Nat.add_comm]
  simp [labelCount]

@[simp] theorem labelCount_case (r : Reg) (rest : List Instruction) :
    labelCount (.case r :: rest) a = labelCount rest a := rfl

@[simp] theorem labelCount_jump (l : Label) (rest : List Instruction) :
    labelCount (.jump l :: rest) a = labelCount rest a := rfl

theorem labelCount_blockCode (counter : Nat) (body : List Instruction) :
    labelCount (blockCode counter body) a = window counter 2 a + labelCount body a := by
  have hstart : (Scope.numbered counter).start.counter = counter :=
    Label.counter_numbered "start" (by decide) counter
  have hfinish : (Scope.numbered counter).finish.counter = counter + 1 :=
    Label.counter_numbered "end" (by decide) (counter + 1)
  simp only [blockCode, List.cons_append, labelCount_setLabel, labelCount_append, labelCount_nil,
    hstart, hfinish, window, List.range'_succ, List.range'_zero, List.count_cons, List.count_nil,
    beq_iff_eq]
  omega

theorem labelCount_casesCode (r : Reg) (counter : Nat) (e o h : List Instruction) :
    labelCount (casesCode r counter e o h) a =
      window counter 4 a + labelCount e a + labelCount o a + labelCount h a := by
  have hempty := Label.counter_numbered "empty" (by decide) counter
  have hone := Label.counter_numbered "one" (by decide) (counter + 1)
  have hhash := Label.counter_numbered "hash" (by decide) (counter + 2)
  have hpost := Label.counter_numbered "post" (by decide) (counter + 3)
  simp only [casesCode, labelCount_append, labelCount_case, labelCount_jump, labelCount_setLabel,
    labelCount_nil, hempty, hone, hhash, hpost, window, List.range'_succ, List.range'_zero,
    List.count_cons, List.count_nil, beq_iff_eq, Nat.add_assoc, Nat.reduceAdd]
  omega

theorem labelCount_loopCode (r : Reg) (counter : Nat) (o h : List Instruction) :
    labelCount (loopCode r counter o h) a =
      window counter 6 a + labelCount o a + labelCount h a := by
  have hsplit : window counter 6 a = window counter 2 a + window (counter + 2) 4 a :=
    window_add a counter 2 4
  simp only [loopCode, labelCount_blockCode, labelCount_casesCode, labelCount_append,
    labelCount_jump, labelCount_nil]
  omega

theorem labelCount_whileCode (r : Reg) (counter : Nat) (body : List Instruction) :
    labelCount (whileCode r counter body) a = window counter 6 a + labelCount body a := by
  have hsplit : window counter 6 a = window counter 2 a + window (counter + 2) 4 a :=
    window_add a counter 2 4
  simp only [whileCode, labelCount_blockCode, labelCount_casesCode, labelCount_append,
    labelCount_jump, labelCount_nil]
  omega

end Counts

namespace Structured

/-- The labels of a program are numbered from the counter on, and each number is used once. -/
theorem labelCount_code {n : Nat} (p : Structured n) (temp counter : Nat) (scopes : Fin n → Scope)
    (a : Nat) : labelCount (p.code temp scopes counter) a = window counter (p.labels temp) a := by
  induction p generalizing temp counter with
  | write symbol r => rfl
  | comment text => rfl
  | nop => rfl
  | operands regs => rfl
  | seq p q ihp ihq => rw [code, labels, labelCount_append, ihp, ihq, window_add]
  | restart k => rfl
  | exit k => rfl
  | cases r empty one hash ihe iho ihh =>
    -- the labels of the dispatch are made before those of its bodies
    have horder : empty.labels temp + one.labels temp + hash.labels temp + 4 =
        4 + empty.labels temp + one.labels temp + hash.labels temp := by omega
    rw [code, labels, labelCount_casesCode, ihe, iho, ihh, horder, window_add, window_add,
      window_add, ← Nat.add_assoc, ← Nat.add_assoc, ← Nat.add_assoc]
  | block body ih =>
    have horder : body.labels temp + 2 = 2 + body.labels temp := by omega
    rw [code, labels, labelCount_blockCode, ih, horder, window_add]
  | loopOn r one hash iho ihh =>
    have horder : one.labels temp + hash.labels temp + 6 =
        6 + one.labels temp + hash.labels temp := by omega
    rw [code, labels, labelCount_loopCode, iho, ihh, horder, window_add, window_add,
      ← Nat.add_assoc]
  | repeatOn r one hash iho ihh =>
    have horder : one.labels temp + hash.labels temp + 6 =
        6 + one.labels temp + hash.labels temp := by omega
    rw [code, labels, labelCount_loopCode, iho, ihh, horder, window_add, window_add,
      ← Nat.add_assoc]
  | whileNonempty r body ih =>
    have horder : body.labels temp + 6 = 6 + body.labels temp := by omega
    rw [code, labels, labelCount_whileCode, ih, horder, window_add]
  | withTemp body ih => exact ih _ _ _ _

theorem nodup_definedLabels_code {n : Nat} (p : Structured n) (temp counter : Nat)
    (scopes : Fin n → Scope) : (definedLabels (p.code temp scopes counter)).Nodup := by
  apply List.Nodup.of_map Label.counter
  rw [List.nodup_iff_count_le_one]
  intro a
  have hcount := p.labelCount_code temp counter scopes a
  rw [labelCount] at hcount
  rw [hcount]
  exact window_le_one a counter (p.labels temp)

end Structured

/-! ## Jumps and labels -/

/-- Every jump of a stream goes to a label that the stream defines, or that is known outside of it.
The labels that it defines are numbered from `counter` on. -/
structure Wired (outside : Label → Prop) (counter : Nat) (code : List Instruction) : Prop where
  jumps : ∀ l, .jump l ∈ code → l ∈ definedLabels code ∨ outside l
  labels : ∀ l ∈ definedLabels code, ∃ hint k, counter ≤ k ∧ l = .numbered hint k

/-- A label known outside of a block, or one of the two of the block. -/
def Scope.Knows (scope : Scope) (outside : Label → Prop) (l : Label) : Prop :=
  outside l ∨ l ∈ [scope.start, scope.finish]

/-- The labels of a dispatch whose labels are made from `counter` on. -/
def casesLabels (counter : Nat) : List Label :=
  [.numbered "empty" counter, .numbered "one" (counter + 1), .numbered "hash" (counter + 2),
    .numbered "post" (counter + 3)]

namespace Wired

variable {outside outside' : Label → Prop} {counter counter' : Nat}
  {code code' body e o h : List Instruction} {r : Reg}

theorem mono (hcode : Wired outside counter code) (houtside : ∀ l, outside l → outside' l)
    (hcounter : counter' ≤ counter) : Wired outside' counter' code where
  jumps l hl := (hcode.jumps l hl).imp_right (houtside l)
  labels l hl := by
    obtain ⟨hint, k, hk, rfl⟩ := hcode.labels l hl
    exact ⟨hint, k, Nat.le_trans hcounter hk, rfl⟩

/-- An instruction that neither jumps nor defines a label. -/
theorem single {i : Instruction} (hjump : ∀ l, i ≠ .jump l) (hlabel : i.definedLabel? = none) :
    Wired outside counter [i] where
  jumps l hl := absurd (List.mem_singleton.1 hl).symm (hjump l)
  labels := by simp [definedLabels_cons, hlabel]

theorem nil : Wired outside counter [] where
  jumps := nofun
  labels := nofun

theorem jump {l : Label} (hl : outside l) : Wired outside counter [.jump l] where
  jumps l' hl' := by
    obtain rfl : l' = l := Instruction.jump.inj (List.mem_singleton.1 hl')
    exact .inr hl
  labels := nofun

theorem restart (scope : Scope) : Wired (scope.Knows outside) counter [.jump scope.start] :=
  jump (.inr List.mem_cons_self)

theorem exit (scope : Scope) : Wired (scope.Knows outside) counter [.jump scope.finish] :=
  jump (.inr (List.mem_cons_of_mem _ List.mem_cons_self))

theorem append (hcode : Wired outside counter code) (hcode' : Wired outside counter code') :
    Wired outside counter (code ++ code') where
  jumps l hl := by
    rw [definedLabels_append, List.mem_append]
    rcases List.mem_append.1 hl with hl | hl
    · exact (hcode.jumps l hl).imp_left .inl
    · exact (hcode'.jumps l hl).imp_left .inr
  labels := by
    rw [definedLabels_append]
    exact List.forall_mem_append.2 ⟨hcode.labels, hcode'.labels⟩

theorem cons {i : Instruction} (hi : Wired outside counter [i])
    (hcode : Wired outside counter code) : Wired outside counter (i :: code) :=
  hi.append hcode

theorem label (hint : String) {k : Nat} (hk : counter ≤ k) :
    Wired outside counter [.setLabel (.numbered hint k)] where
  jumps _ hl := nomatch List.mem_singleton.1 hl
  labels := List.forall_mem_singleton.2 ⟨hint, k, hk, rfl⟩

/-- Labels that a stream defines itself need not be known outside of it. -/
theorem close (inside : List Label)
    (hcode : Wired (fun l => outside l ∨ l ∈ inside) counter code)
    (hinside : inside ⊆ definedLabels code) : Wired outside counter code where
  jumps l hl := by
    rcases hcode.jumps l hl with hmem | hmem | hmem
    · exact .inl hmem
    · exact .inr hmem
    · exact .inl (hinside hmem)
  labels := hcode.labels

/-- A block may be left and restarted from inside. -/
theorem blockCode (hbody : Wired ((Scope.numbered counter).Knows outside) counter body) :
    Wired outside counter (blockCode counter body) := by
  apply close _
    (cons (label "start" (Nat.le_refl _)) (hbody.append (label "end" (Nat.le_succ _))))
  simp [definedLabels_cons, Instruction.definedLabel?, Scope.numbered]

/-- The jumps of a dispatch go to its own labels. -/
theorem casesCode (he : Wired outside counter e) (ho : Wired outside counter o)
    (hh : Wired outside counter h) : Wired outside counter (casesCode r counter e o h) := by
  have hown : ∀ l ∈ casesLabels counter,
      Wired (fun l => outside l ∨ l ∈ casesLabels counter) counter [.jump l] :=
    fun l hl => jump (.inr hl)
  obtain ⟨toEmpty, toOne, toHash, toPost, -⟩ := by
    simpa only [casesLabels, List.forall_mem_cons] using hown
  have hbody : ∀ {code}, Wired outside counter code →
      Wired (fun l => outside l ∨ l ∈ casesLabels counter) counter code :=
    fun hcode => hcode.mono (fun _ => .inl) (Nat.le_refl _)
  refine close (casesLabels counter) ?_ ?_
  · unfold TextMachine.casesCode
    refine append (append (append (append (append (append ?_ (hbody he)) ?_) (hbody ho)) ?_)
      (hbody hh)) (label "post" (by omega))
    · exact cons (single nofun rfl) <| cons toEmpty <| cons toOne <| cons toHash <| cons toPost <|
        label "empty" (Nat.le_refl _)
    · exact cons toPost (label "one" (by omega))
    · exact cons toPost (label "hash" (by omega))
  · simp [casesLabels, TextMachine.casesCode, definedLabels_cons, Instruction.definedLabel?]

/-- The ways out of a loop and back to its beginning go to the labels of its block. -/
theorem loopCode (ho : Wired ((Scope.numbered counter).Knows outside) (counter + 2) o)
    (hh : Wired ((Scope.numbered counter).Knows outside) (counter + 2) h) :
    Wired outside counter (loopCode r counter o h) := by
  apply blockCode
  exact (casesCode (exit _) (ho.append (restart _)) (hh.append (restart _))).mono (fun _ => id)
    (by omega)

theorem whileCode (hbody : Wired ((Scope.numbered counter).Knows outside) (counter + 2) body) :
    Wired outside counter (whileCode r counter body) := by
  apply blockCode
  exact (((casesCode (exit _) nil nil).append hbody).append (restart _)).mono (fun _ => id)
    (by omega)

end Wired

namespace Structured

/-- A label of one of the given scopes. -/
def ScopeLabel {n : Nat} (scopes : Fin n → Scope) (l : Label) : Prop :=
  ∃ k, l = (scopes k).start ∨ l = (scopes k).finish

theorem knows_of_scopeLabel_cons {n : Nat} {scope : Scope} {scopes : Fin n → Scope} (l : Label)
    (h : ScopeLabel (Fin.cons scope scopes) l) : scope.Knows (ScopeLabel scopes) l := by
  obtain ⟨k, hk⟩ := h
  cases k using Fin.cases with
  | zero => exact .inr (by simpa using hk)
  | succ k => exact .inl ⟨k, by simpa using hk⟩

/-- Every jump of a program goes to one of its own labels or to one of an enclosing scope. -/
theorem wired_code {n : Nat} (p : Structured n) (temp counter : Nat) (scopes : Fin n → Scope) :
    Wired (ScopeLabel scopes) counter (p.code temp scopes counter) := by
  induction p generalizing temp counter with
  | write symbol r => exact .single nofun rfl
  | comment text => exact .single nofun rfl
  | nop => exact .single nofun rfl
  | operands regs => exact .nil
  | seq p q ihp ihq =>
    exact (ihp _ _ _).append ((ihq _ _ _).mono (fun _ => id) (by omega))
  | restart k => exact .jump ⟨k, .inl rfl⟩
  | exit k => exact .jump ⟨k, .inr rfl⟩
  | cases r empty one hash ihe iho ihh =>
    apply Wired.casesCode
    · exact (ihe _ _ _).mono (fun _ => id) (by omega)
    · exact (iho _ _ _).mono (fun _ => id) (by omega)
    · exact (ihh _ _ _).mono (fun _ => id) (by omega)
  | block body ih =>
    exact .blockCode ((ih _ _ _).mono knows_of_scopeLabel_cons (by omega))
  | loopOn r one hash iho ihh =>
    apply Wired.loopCode
    · exact (iho _ _ _).mono knows_of_scopeLabel_cons (by omega)
    · exact (ihh _ _ _).mono knows_of_scopeLabel_cons (by omega)
  | repeatOn r one hash iho ihh =>
    apply Wired.loopCode
    · exact (iho _ _ _).mono (fun _ => .inl) (by omega)
    · exact (ihh _ _ _).mono (fun _ => .inl) (by omega)
  | whileNonempty r body ih => exact .whileCode ((ih _ _ _).mono (fun _ => .inl) (by omega))
  | withTemp body ih => exact ih _ _ _ _

end Structured

/-! ## Code of the control structures -/

section Control

variable {positions : List (Label × Nat)} {here counter : Nat} {r : Reg}
  {body e o h : List Instruction}

/-! The jumps of a dispatch and the way out of a loop go to labels that stand further on, and the
way back to the beginning of the loop. So whatever can be asked of an instruction at its position
holds of the whole structure as soon as it holds of the dispatch and of the bodies, provided that it
holds of label definitions and of such jumps. -/

section Parts

variable {P : Nat → Instruction → Prop} (hlabel : ∀ pc l, P pc (.setLabel l))
  (hforward : ∀ pc l target, positions.lookup l = some target → pc < target → P pc (.jump l))
include hlabel hforward

theorem allAt_casesCode_iff (hplaced : Placed positions here (casesCode r counter e o h)) :
    AllAt P here (casesCode r counter e o h) ↔
      P here (.case r) ∧ AllAt P (here + 5) e ∧ AllAt P (here + 6 + extent e) o ∧
        AllAt P (here + 7 + extent e + extent o) h := by
  have hlabels := allAt_casesCode.1 hplaced
  rw [allAt_casesCode]
  constructor
  · intro hall
    exact ⟨hall.case, hall.empty, hall.one, hall.hash⟩
  · rintro ⟨hcase, he, ho, hh⟩
    exact
      { case := hcase
        toEmpty := hforward _ _ _ hlabels.onEmpty (by omega)
        toOne := hforward _ _ _ hlabels.onOne (by omega)
        toHash := hforward _ _ _ hlabels.onHash (by omega)
        toPost := hforward _ _ _ hlabels.post (by omega)
        onEmpty := hlabel _ _
        empty := he
        fromEmpty := hforward _ _ _ hlabels.post (by omega)
        onOne := hlabel _ _
        one := ho
        fromOne := hforward _ _ _ hlabels.post (by omega)
        onHash := hlabel _ _
        hash := hh
        post := hlabel _ _ }

theorem allAt_loopCode_iff (hplaced : Placed positions here (loopCode r counter o h))
    (hback : ∀ pc, here < pc → P pc (.jump (Scope.numbered counter).start)) :
    AllAt P here (loopCode r counter o h) ↔
      P here (.case r) ∧ AllAt P (here + 7) o ∧ AllAt P (here + 9 + extent o) h := by
  have hlabels := hplaced.loopCode
  constructor
  · intro hall
    have hparts := hall.loopCode
    exact ⟨hparts.cases.case, hparts.one, hparts.hash⟩
  · rintro ⟨hcase, ho, hh⟩
    have hdispatch := allAt_casesCode_iff hlabel hforward (allAt_blockCode.1 hplaced).2.1
    rw [loopCode, allAt_blockCode, hdispatch]
    simp only [allAt_append, allAt_cons, allAt_nil, and_true, extent_append, extent_cons,
      extent_nil, Instruction.width_jump]
    refine ⟨hlabel _ _, ⟨hcase, ?_, ⟨ho, ?_⟩, hh.of_eq (by omega), ?_⟩, hlabel _ _⟩
    · exact hforward _ _ _ hlabels.finish (by omega)
    · exact hback _ (by omega)
    · exact hback _ (by omega)

theorem allAt_whileCode_iff (hplaced : Placed positions here (whileCode r counter body))
    (hback : ∀ pc, here < pc → P pc (.jump (Scope.numbered counter).start)) :
    AllAt P here (whileCode r counter body) ↔
      P here (.case r) ∧ AllAt P (here + 8) body := by
  have hlabels := hplaced.whileCode
  constructor
  · intro hall
    have hparts := hall.whileCode
    exact ⟨hparts.cases.case, hparts.body⟩
  · rintro ⟨hcase, hbody⟩
    have hdispatch := allAt_casesCode_iff hlabel hforward (allAt_casesCode.2 hlabels.cases)
    rw [whileCode, allAt_blockCode, List.append_assoc, allAt_append, allAt_append, hdispatch,
      extent_casesCode]
    refine ⟨hlabel _ _, ⟨⟨hcase, ⟨?_, trivial⟩, trivial, trivial⟩, hbody, ?_, trivial⟩,
      hlabel _ _⟩
    · exact hforward _ _ _ hlabels.finish (by omega)
    · exact hback _ (by omega)

end Parts

theorem resolves_blockCode :
    Resolves positions here (blockCode counter body) ↔ Resolves positions here body := by
  rw [Resolves, allAt_blockCode]
  show True ∧ Resolves positions here body ∧ True ↔ Resolves positions here body
  rw [true_and, and_true]

theorem Instruction.resolves_jump_of_lt (pc : Nat) (l : Label) (target : Nat)
    (hl : positions.lookup l = some target) (hlt : pc < target) :
    (Instruction.jump l).Resolves positions pc :=
  ⟨target, hl, Nat.ne_of_gt hlt⟩

/-- The jumps of a dispatch always resolve, so it does if its bodies do. -/
theorem resolves_casesCode (hplaced : Placed positions here (casesCode r counter e o h)) :
    Resolves positions here (casesCode r counter e o h) ↔
      r.index ≠ 0 ∧ Resolves positions (here + 5) e ∧
        Resolves positions (here + 6 + extent e) o ∧
          Resolves positions (here + 7 + extent e + extent o) h :=
  allAt_casesCode_iff (fun _ _ => trivial) Instruction.resolves_jump_of_lt hplaced

/-- A loop goes back to its beginning only after a dispatch, so it resolves if its bodies do. -/
theorem resolves_loopCode (hplaced : Placed positions here (loopCode r counter o h)) :
    Resolves positions here (loopCode r counter o h) ↔
      r.index ≠ 0 ∧ Resolves positions (here + 7) o ∧
        Resolves positions (here + 9 + extent o) h :=
  allAt_loopCode_iff (fun _ _ => trivial) Instruction.resolves_jump_of_lt hplaced
    fun _ hpc => ⟨here, hplaced.loopCode.start, Nat.ne_of_lt hpc⟩

theorem resolves_whileCode (hplaced : Placed positions here (whileCode r counter body)) :
    Resolves positions here (whileCode r counter body) ↔
      r.index ≠ 0 ∧ Resolves positions (here + 8) body :=
  allAt_whileCode_iff (fun _ _ => trivial) Instruction.resolves_jump_of_lt hplaced
    fun _ hpc => ⟨here, hplaced.whileCode.start, Nat.ne_of_lt hpc⟩

end Control

/-! ## Whole programs -/

namespace Structured

/-- The number of operations in the code of a program. -/
def size {n : Nat} (temp : Nat) : Structured n → Nat
  | write _ _ => 1
  | comment _ => 0
  | nop => 0
  | operands _ => 0
  | seq p q => p.size temp + q.size temp
  | restart _ => 1
  | exit _ => 1
  | cases _ empty one hash => empty.size temp + one.size temp + hash.size temp + 7
  | block body => body.size temp
  | loopOn _ one hash => one.size temp + hash.size temp + 10
  | repeatOn _ one hash => one.size temp + hash.size temp + 10
  | whileNonempty _ body => body.size temp + 9
  | withTemp body => (body ⟨temp⟩).size (temp + 1)

theorem extent_code {n : Nat} (p : Structured n) (temp counter : Nat) (scopes : Fin n → Scope) :
    extent (p.code temp scopes counter) = p.size temp := by
  induction p generalizing temp counter with
  | write symbol r => rfl
  | comment text => rfl
  | nop => rfl
  | operands regs => rfl
  | seq p q ihp ihq => rw [code, extent_append, ihp, ihq, size]
  | restart k => rfl
  | exit k => rfl
  | cases r empty one hash ihe iho ihh => rw [code, extent_casesCode, ihe, iho, ihh, size]
  | block body ih => rw [code, extent_blockCode, ih, size]
  | loopOn r one hash iho ihh => rw [code, extent_loopCode, iho, ihh, size]
  | repeatOn r one hash iho ihh => rw [code, extent_loopCode, iho, ihh, size]
  | whileNonempty r body ih => rw [code, extent_whileCode, ih, size]
  | withTemp body ih => exact ih _ _ _ _

/-- No block is restarted before it has done anything. `untouched k` says of an enclosing block that
it has done nothing yet. -/
def NoSelfJump {n : Nat} (temp : Nat) : Structured n → (untouched : Fin n → Prop) → Prop
  | write _ _, _ => True
  | comment _, _ => True
  | nop, _ => True
  | operands _, _ => True
  | seq p q, untouched =>
    p.NoSelfJump temp untouched ∧ q.NoSelfJump temp fun k => untouched k ∧ p.size temp = 0
  | restart k, untouched => ¬ untouched k
  | exit _, _ => True
  | cases _ empty one hash, _ =>
    empty.NoSelfJump temp (fun _ => False) ∧ one.NoSelfJump temp (fun _ => False) ∧
      hash.NoSelfJump temp (fun _ => False)
  | block body, untouched => body.NoSelfJump temp (Fin.cons True untouched)
  | loopOn _ one hash, _ =>
    one.NoSelfJump temp (fun _ => False) ∧ hash.NoSelfJump temp (fun _ => False)
  | repeatOn _ one hash, _ =>
    one.NoSelfJump temp (fun _ => False) ∧ hash.NoSelfJump temp (fun _ => False)
  | whileNonempty _ body, _ => body.NoSelfJump temp (fun _ => False)
  | withTemp body, untouched => (body ⟨temp⟩).NoSelfJump (temp + 1) untouched

end Structured

/-- The labels of the enclosing scopes stand around the code from `here` to `past`. The beginning of
a scope is at `here` only if the scope is untouched. -/
structure ScopesPlaced {n : Nat} (positions : List (Label × Nat)) (scopes : Fin n → Scope)
    (here past : Nat) (untouched : Fin n → Prop) : Prop where
  start : ∀ k, ∃ target, positions.lookup (scopes k).start = some target ∧ target ≤ here ∧
    (target = here ↔ untouched k)
  finish : ∀ k, ∃ target, positions.lookup (scopes k).finish = some target ∧ past ≤ target

namespace ScopesPlaced

variable {n : Nat} {positions : List (Label × Nat)} {scopes : Fin n → Scope} {here past : Nat}
  {untouched : Fin n → Prop}

/-- Further inside, something has been done since the beginning of every scope. -/
theorem inner {here' past' : Nat} (h : ScopesPlaced positions scopes here past untouched)
    (hhere : here < here') (hpast : past' ≤ past) :
    ScopesPlaced positions scopes here' past' (fun _ => False) where
  start k := by
    obtain ⟨target, hl, hle, -⟩ := h.start k
    refine ⟨target, hl, by omega, ?_⟩
    rw [iff_false]
    omega
  finish k := by
    obtain ⟨target, hl, hle⟩ := h.finish k
    exact ⟨target, hl, by omega⟩

theorem before {past' : Nat} (h : ScopesPlaced positions scopes here past untouched)
    (hpast : past' ≤ past) : ScopesPlaced positions scopes here past' untouched where
  start := h.start
  finish k := by
    obtain ⟨target, hl, hle⟩ := h.finish k
    exact ⟨target, hl, by omega⟩

/-- After code of the given size. -/
theorem after {size past' : Nat} (h : ScopesPlaced positions scopes here past untouched)
    (hpast : past' ≤ past) :
    ScopesPlaced positions scopes (here + size) past' (fun k => untouched k ∧ size = 0) where
  start k := by
    obtain ⟨target, hl, hle, hiff⟩ := h.start k
    refine ⟨target, hl, by omega, ?_⟩
    rw [← hiff]
    omega
  finish k := by
    obtain ⟨target, hl, hle⟩ := h.finish k
    exact ⟨target, hl, by omega⟩

/-- Inside one more block. -/
theorem cons {scope : Scope} (h : ScopesPlaced positions scopes here past untouched)
    (hstart : positions.lookup scope.start = some here)
    (hfinish : positions.lookup scope.finish = some past) :
    ScopesPlaced positions (Fin.cons scope scopes) here past (Fin.cons True untouched) where
  start := by
    refine Fin.cases ⟨here, hstart, Nat.le_refl here, ?_⟩ h.start
    simp
  finish := Fin.cases ⟨past, hfinish, Nat.le_refl past⟩ h.finish

end ScopesPlaced

namespace Structured

/-- The code of an allowed program resolves exactly if no block is restarted before it has done
anything. -/
theorem resolves_code_iff {n : Nat} {positions : List (Label × Nat)} (p : Structured n)
    {temp counter here : Nat} {scopes : Fin n → Scope} {untouched : Fin n → Prop}
    (hallowed : p.Allowed temp) (hplaced : Placed positions here (p.code temp scopes counter))
    (hscopes : ScopesPlaced positions scopes here (here + p.size temp) untouched) :
    Resolves positions here (p.code temp scopes counter) ↔ p.NoSelfJump temp untouched := by
  -- inside a dispatch or a loop no scope is untouched any more; a block opens a new one that is
  induction p generalizing temp counter here with
  | write symbol r => exact iff_of_true ⟨hallowed.1, trivial⟩ trivial
  | comment text => exact iff_of_true ⟨trivial, trivial⟩ trivial
  | nop => exact iff_of_true ⟨trivial, trivial⟩ trivial
  | operands regs => exact iff_of_true trivial trivial
  | seq p q ihp ihq =>
    obtain ⟨hp, hq⟩ := allAt_append.1 hplaced
    rw [extent_code] at hq
    have hfirst := ihp hallowed.1 hp (hscopes.before (by rw [size]; omega))
    have hsecond := ihq hallowed.2 hq (hscopes.after (by rw [size]; omega))
    rw [code, Resolves, allAt_append, extent_code]
    exact and_congr hfirst hsecond
  | restart k =>
    obtain ⟨target, hl, -, hiff⟩ := hscopes.start k
    show (∃ t, positions.lookup (scopes k).start = some t ∧ t ≠ here) ∧ True ↔ ¬ untouched k
    simp [hl, hiff]
  | exit k =>
    -- a scope ends past everything inside of it, this jump included
    obtain ⟨target, hl, hle⟩ := hscopes.finish k
    have hpast : here + 1 ≤ target := hle
    exact iff_of_true ⟨⟨target, hl, by omega⟩, trivial⟩ trivial
  | cases r empty one hash ihe iho ihh =>
    obtain ⟨hr, hempty, hone, hhash⟩ := hallowed
    have hcases := resolves_casesCode hplaced
    have hlabels := allAt_casesCode.1 hplaced
    have hdone := hlabels.one
    have hdhash := hlabels.hash
    simp only [extent_code] at hcases hdone hdhash
    rw [size] at hscopes
    have he := ihe hempty hlabels.empty (hscopes.inner (by omega) (by omega))
    have ho := iho hone hdone (hscopes.inner (by omega) (by omega))
    have hh := ihh hhash hdhash (hscopes.inner (by omega) (by omega))
    rw [code, hcases, NoSelfJump, he, ho, hh]
    exact and_iff_right hr.1
  | block body ih =>
    obtain ⟨hstart, hbody, hfinish⟩ := allAt_blockCode.1 hplaced
    rw [extent_code] at hfinish
    rw [code, resolves_blockCode]
    exact ih hallowed hbody (hscopes.cons hstart hfinish)
  | loopOn r one hash iho ihh =>
    obtain ⟨hr, hone, hhash⟩ := hallowed
    have hloop := resolves_loopCode hplaced
    have hlabels := hplaced.loopCode
    have hfinish := hlabels.finish
    have hdhash := hlabels.hash
    simp only [extent_code] at hloop hfinish hdhash
    rw [size] at hscopes
    have hinside := hscopes.cons hlabels.start (hfinish.trans (congrArg some (by omega)))
    have ho := iho hone hlabels.one (hinside.inner (by omega) (by omega))
    have hh := ihh hhash hdhash (hinside.inner (by omega) (by omega))
    rw [code, hloop, NoSelfJump, ho, hh]
    exact and_iff_right hr.1
  | repeatOn r one hash iho ihh =>
    obtain ⟨hr, hone, hhash⟩ := hallowed
    have hloop := resolves_loopCode hplaced
    have hlabels := hplaced.loopCode
    have hdhash := hlabels.hash
    simp only [extent_code] at hloop hdhash
    rw [size] at hscopes
    have ho := iho hone hlabels.one (hscopes.inner (by omega) (by omega))
    have hh := ihh hhash hdhash (hscopes.inner (by omega) (by omega))
    rw [code, hloop, NoSelfJump, ho, hh]
    exact and_iff_right hr.1
  | whileNonempty r body ih =>
    rw [size] at hscopes
    have hbody := ih hallowed.2 hplaced.whileCode.body (hscopes.inner (by omega) (by omega))
    rw [code, resolves_whileCode hplaced, NoSelfJump, hbody]
    exact and_iff_right hallowed.1.1
  | withTemp body ih => exact ih _ hallowed hplaced hscopes

/-- Building an allowed program succeeds, and its code resolves if no block is restarted before it
has done anything. -/
theorem exists_compile_resolve (p : Structured 0) (base : Nat)
    (hallowed : p.Allowed (max base 1)) (hjumps : p.NoSelfJump (max base 1) Fin.elim0) :
    ∃ finished loaded, p.compile base = .ok finished ∧ resolve finished = .ok loaded := by
  have hnodup := p.nodup_definedLabels_code (max base 1) 0 Fin.elim0
  have hcompile := compile_eq_ok_iff.2 ⟨hallowed, rfl, hnodup⟩
  have hscopes : ScopesPlaced (labelPositions 0 (p.code (max base 1) Fin.elim0 0)) Fin.elim0 0
      (0 + p.size (max base 1)) Fin.elim0 := ⟨fun k => k.elim0, fun k => k.elim0⟩
  have hresolves :=
    (p.resolves_code_iff hallowed (placed_labelPositions hnodup) hscopes).2 hjumps
  obtain ⟨ops, hops⟩ := resolves_iff.1 hresolves
  exact ⟨_, ⟨ops, _⟩, hcompile, resolve_eq_ok_iff.2 ⟨hnodup, hops, rfl⟩⟩

end Structured

end TextMachine
