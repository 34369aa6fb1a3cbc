import TextMachine.Proofs.Resolution.Errors
import TextMachine.Proofs.Structured.Labels

/-!
# What can be wrong with a structured program

The code of an allowed structured program is *aimed*: its registers exist, and every jump goes to a
label of the code that stands further on, or to the beginning of a scope (`Structured.aimed_code`).
So a single thing is left that keeps it from resolving, an idle jump to the beginning of a scope:
one with nothing real between the definition of the label and the jump. The first such jump is what
is reported (`resolve_eq_error_iff_of_aimed`).

A loop begins with the dispatch on its register, which is real, so the scope of a loop is never the
cause (`Structured.loop_infix_code`). It takes a block that is restarted before it has done
anything, or several of them that begin at the same position.
-/

namespace TextMachine

/-! ## Aimed code -/

/-- An instruction at position `here` resolves, unless it jumps from there to the beginning of a
scope. -/
def Instruction.Aimed (positions : List (Label × Nat)) (IsStart : Label → Prop) (here : Nat) :
    Instruction → Prop
  | write _ r => r.index ≠ 0
  | case r => r.index ≠ 0
  | jump l => ∃ target, positions.lookup l = some target ∧ (here < target ∨ IsStart l)
  | setLabel _ => True
  | comment _ => True
  | nop => True

section Aimed

variable {positions : List (Label × Nat)} {IsStart : Label → Prop} {here : Nat}

theorem Instruction.aimed_jump_of_lt (pc : Nat) (l : Label) (target : Nat)
    (hl : positions.lookup l = some target) (hlt : pc < target) :
    (Instruction.jump l).Aimed positions IsStart pc :=
  ⟨target, hl, .inl hlt⟩

/-- The only way for an aimed instruction to fail. -/
theorem Instruction.Aimed.failsWith_iff {i : Instruction} (h : i.Aimed positions IsStart here)
    {e : ResolveError} :
    i.FailsWith positions here e ↔
      ∃ l, i = .jump l ∧ e = .selfJump l ∧ IsStart l ∧ positions.lookup l = some here := by
  cases i with
  | write s r =>
    refine iff_of_false (fun hfails => h hfails.1) ?_
    rintro ⟨l, hl, -⟩
    cases hl
  | case r =>
    refine iff_of_false (fun hfails => h hfails.1) ?_
    rintro ⟨l, hl, -⟩
    cases hl
  | jump l =>
    obtain ⟨target, hl, haim⟩ := h
    constructor
    · rintro (⟨hnone, -⟩ | ⟨hhere, rfl⟩)
      · rw [hl] at hnone
        cases hnone
      · rw [hl] at hhere
        obtain rfl := Option.some.inj hhere
        exact ⟨l, rfl, rfl, haim.resolve_left (Nat.lt_irrefl target), hl⟩
    · rintro ⟨_, heq, rfl, -, hhere⟩
      cases heq
      exact .inr ⟨hhere, rfl⟩
  | setLabel l => exact iff_of_false id (by rintro ⟨_, hl, -⟩; cases hl)
  | comment text => exact iff_of_false id (by rintro ⟨_, hl, -⟩; cases hl)
  | nop => exact iff_of_false id (by rintro ⟨_, hl, -⟩; cases hl)

end Aimed

/-- Aimed code fails to resolve because of its first idle jump to the beginning of a scope, and for
no other reason. -/
theorem resolve_eq_error_iff_of_aimed {code : List Instruction} {IsStart : Label → Prop}
    (hnodup : (definedLabels code).Nodup)
    (haimed : AllAt (Instruction.Aimed (labelPositions 0 code) IsStart) 0 code)
    {e : ResolveError} :
    resolve code = .error e ↔
      ∃ i l, e = .selfJump l ∧ IsStart l ∧ IdleJumpAt code i l ∧
        ∀ k < i, ∀ l', IsStart l' → ¬ IdleJumpAt code k l' := by
  -- an instruction fails exactly where an idle jump to the beginning of a scope stands
  have hfails : ∀ i e, FailsAt code i e ↔
      ∃ l, e = .selfJump l ∧ IsStart l ∧ IdleJumpAt code i l := by
    intro i e
    constructor
    · rintro ⟨instr, hi, hfail⟩
      rw [← Nat.zero_add (extent _), (haimed.of_getElem? hi).failsWith_iff, Nat.zero_add] at hfail
      obtain ⟨l, rfl, he, hstart, hl⟩ := hfail
      exact ⟨l, he, hstart, (lookup_eq_some_extent_iff hnodup hi).1 hl⟩
    · rintro ⟨l, rfl, hstart, hidle⟩
      exact ⟨.jump l, hidle.1, .inr ⟨(lookup_eq_some_extent_iff hnodup hidle.1).2 hidle, rfl⟩⟩
  rw [resolve_eq_error_iff_first hnodup]
  simp only [hfails]
  constructor
  · rintro ⟨i, ⟨l, he, hstart, hidle⟩, hfirst⟩
    exact ⟨i, l, he, hstart, hidle, fun k hk l' hstart' hidle' =>
      hfirst k hk _ ⟨l', rfl, hstart', hidle'⟩⟩
  · rintro ⟨i, l, he, hstart, hidle, hfirst⟩
    refine ⟨i, ⟨l, he, hstart, hidle⟩, ?_⟩
    rintro k hk _ ⟨l', rfl, hstart', hidle'⟩
    exact hfirst k hk l' hstart' hidle'

/-! ## The scopes of a program -/

/-- What a scope belongs to. -/
inductive ScopeKind where
  | block
  | loop
deriving DecidableEq

namespace Structured

/-- The scopes that a program makes when its labels are made from `counter` on: what each of them
belongs to, and the label of its beginning. -/
def scopesMade {n : Nat} (temp : Nat) : Structured n → (counter : Nat) → List (ScopeKind × Label)
  | write _ _, _ => []
  | comment _, _ => []
  | nop, _ => []
  | operands _, _ => []
  | seq p q, counter => p.scopesMade temp counter ++ q.scopesMade temp (counter + p.labels temp)
  | restart _, _ => []
  | exit _, _ => []
  | cases _ empty one hash, counter =>
    let afterEmpty := counter + 4 + empty.labels temp
    empty.scopesMade temp (counter + 4) ++ one.scopesMade temp afterEmpty ++
      hash.scopesMade temp (afterEmpty + one.labels temp)
  | block body, counter =>
    (.block, (Scope.numbered counter).start) :: body.scopesMade temp (counter + 2)
  | loopOn _ one hash, counter =>
    (.loop, (Scope.numbered counter).start) ::
      (one.scopesMade temp (counter + 6) ++
        hash.scopesMade temp (counter + 6 + one.labels temp))
  | repeatOn _ one hash, counter =>
    (.loop, (Scope.numbered counter).start) ::
      (one.scopesMade temp (counter + 6) ++
        hash.scopesMade temp (counter + 6 + one.labels temp))
  | whileNonempty _ body, counter =>
    (.loop, (Scope.numbered counter).start) :: body.scopesMade temp (counter + 6)
  | withTemp body, counter => (body ⟨temp⟩).scopesMade (temp + 1) counter

/-- The code of an allowed program is aimed. -/
theorem aimed_code {n : Nat} {positions : List (Label × Nat)} {IsStart : Label → Prop}
    (p : Structured n) {temp counter here : Nat} {scopes : Fin n → Scope}
    {untouched : Fin n → Prop} (hallowed : p.Allowed temp)
    (hplaced : Placed positions here (p.code temp scopes counter))
    (hscopes : ScopesPlaced positions scopes here (here + p.size temp) untouched)
    (houter : ∀ k, IsStart (scopes k).start)
    (hinner : ∀ s ∈ p.scopesMade temp counter, IsStart s.2) :
    AllAt (Instruction.Aimed positions IsStart) here (p.code temp scopes counter) := by
  induction p generalizing temp counter here with
  | write symbol r => exact ⟨hallowed.1, trivial⟩
  | comment text => exact ⟨trivial, trivial⟩
  | nop => exact ⟨trivial, trivial⟩
  | operands regs => trivial
  | seq p q ihp ihq =>
    obtain ⟨hp, hq⟩ := allAt_append.1 hplaced
    obtain ⟨hinp, hinq⟩ := List.forall_mem_append.1 hinner
    rw [extent_code] at hq
    rw [code, allAt_append, extent_code]
    exact ⟨ihp hallowed.1 hp (hscopes.before (by rw [size]; omega)) houter hinp,
      ihq hallowed.2 hq (hscopes.after (by rw [size]; omega)) houter hinq⟩
  | restart k =>
    obtain ⟨target, hl, -⟩ := hscopes.start k
    exact ⟨⟨target, hl, .inr (houter k)⟩, trivial⟩
  | exit k =>
    -- a scope ends past everything inside of it, this jump included
    obtain ⟨target, hl, hle⟩ := hscopes.finish k
    exact ⟨⟨target, hl, .inl hle⟩, trivial⟩
  | cases r empty one hash ihe iho ihh =>
    obtain ⟨hr, hempty, hone, hhash⟩ := hallowed
    obtain ⟨hinEmptyOne, hinHash⟩ := List.forall_mem_append.1 hinner
    obtain ⟨hinEmpty, hinOne⟩ := List.forall_mem_append.1 hinEmptyOne
    have hlabels := allAt_casesCode.1 hplaced
    have hone' := hlabels.one
    have hhash' := hlabels.hash
    simp only [extent_code] at hone' hhash'
    rw [size] at hscopes
    rw [code, allAt_casesCode_iff (fun _ _ => trivial) Instruction.aimed_jump_of_lt hplaced]
    simp only [extent_code]
    exact ⟨hr.1, ihe hempty hlabels.empty (hscopes.inner (by omega) (by omega)) houter hinEmpty,
      iho hone hone' (hscopes.inner (by omega) (by omega)) houter hinOne,
      ihh hhash hhash' (hscopes.inner (by omega) (by omega)) houter hinHash⟩
  | block body ih =>
    obtain ⟨hown, hinBody⟩ := List.forall_mem_cons.1 hinner
    obtain ⟨hstart, hbody, hfinish⟩ := allAt_blockCode.1 hplaced
    rw [extent_code] at hfinish
    rw [code, allAt_blockCode]
    exact ⟨trivial,
      ih hallowed hbody (hscopes.cons hstart hfinish) (Fin.cases hown houter) hinBody, trivial⟩
  | loopOn r one hash iho ihh =>
    obtain ⟨hr, hone, hhash⟩ := hallowed
    obtain ⟨hown, hinBodies⟩ := List.forall_mem_cons.1 hinner
    obtain ⟨hinOne, hinHash⟩ := List.forall_mem_append.1 hinBodies
    have hlabels := hplaced.loopCode
    have hfinish := hlabels.finish
    have hhash' := hlabels.hash
    simp only [extent_code] at hfinish hhash'
    rw [size] at hscopes
    have hinside := hscopes.cons hlabels.start (hfinish.trans (congrArg some (by omega)))
    have hback : ∀ pc, here < pc →
        (Instruction.jump (Scope.numbered counter).start).Aimed positions IsStart pc :=
      fun _ _ => ⟨here, hlabels.start, .inr hown⟩
    rw [code, allAt_loopCode_iff (fun _ _ => trivial) Instruction.aimed_jump_of_lt hplaced hback,
      extent_code]
    exact ⟨hr.1,
      iho hone hlabels.one (hinside.inner (by omega) (by omega)) (Fin.cases hown houter) hinOne,
      ihh hhash hhash' (hinside.inner (by omega) (by omega)) (Fin.cases hown houter) hinHash⟩
  | repeatOn r one hash iho ihh =>
    obtain ⟨hr, hone, hhash⟩ := hallowed
    obtain ⟨hown, hinBodies⟩ := List.forall_mem_cons.1 hinner
    obtain ⟨hinOne, hinHash⟩ := List.forall_mem_append.1 hinBodies
    have hlabels := hplaced.loopCode
    have hhash' := hlabels.hash
    simp only [extent_code] at hhash'
    rw [size] at hscopes
    have hback : ∀ pc, here < pc →
        (Instruction.jump (Scope.numbered counter).start).Aimed positions IsStart pc :=
      fun _ _ => ⟨here, hlabels.start, .inr hown⟩
    rw [code, allAt_loopCode_iff (fun _ _ => trivial) Instruction.aimed_jump_of_lt hplaced hback,
      extent_code]
    exact ⟨hr.1, iho hone hlabels.one (hscopes.inner (by omega) (by omega)) houter hinOne,
      ihh hhash hhash' (hscopes.inner (by omega) (by omega)) houter hinHash⟩
  | whileNonempty r body ih =>
    obtain ⟨hown, hinBody⟩ := List.forall_mem_cons.1 hinner
    have hlabels := hplaced.whileCode
    rw [size] at hscopes
    have hback : ∀ pc, here < pc →
        (Instruction.jump (Scope.numbered counter).start).Aimed positions IsStart pc :=
      fun _ _ => ⟨here, hlabels.start, .inr hown⟩
    rw [code, allAt_whileCode_iff (fun _ _ => trivial) Instruction.aimed_jump_of_lt hplaced hback]
    exact ⟨hallowed.1.1,
      ih hallowed.2 hlabels.body (hscopes.inner (by omega) (by omega)) houter hinBody⟩
  | withTemp body ih => exact ih _ hallowed hplaced hscopes houter hinner

end Structured

/-! ## Loops -/

section Infix

variable {r : Reg} {counter : Nat} {e o h body : List Instruction}

theorem infix_blockCode : body <:+: blockCode counter body :=
  ⟨[_], [_], rfl⟩

/-- What lies inside lies inside of anything longer. -/
theorem infix_append_of_infix {code before after : List Instruction} (hcode : code <:+: before) :
    code <:+: before ++ after :=
  hcode.trans (List.prefix_append before after).isInfix

theorem empty_infix_casesCode : e <:+: casesCode r counter e o h := by
  unfold casesCode
  iterate 4 apply infix_append_of_infix
  exact List.infix_append _ e _

theorem one_infix_casesCode : o <:+: casesCode r counter e o h := by
  unfold casesCode
  iterate 2 apply infix_append_of_infix
  exact List.infix_append _ o _

theorem hash_infix_casesCode : h <:+: casesCode r counter e o h := by
  unfold casesCode
  exact List.infix_append _ h _

theorem one_infix_loopCode : o <:+: loopCode r counter o h :=
  (List.prefix_append o _).isInfix.trans (one_infix_casesCode.trans infix_blockCode)

theorem hash_infix_loopCode : h <:+: loopCode r counter o h :=
  (List.prefix_append h _).isInfix.trans (hash_infix_casesCode.trans infix_blockCode)

theorem body_infix_whileCode : body <:+: whileCode r counter body :=
  (List.infix_append _ body _).trans infix_blockCode

/-- A loop begins with its dispatch. -/
theorem dispatch_infix_loopCode :
    [.setLabel (Scope.numbered counter).start, .case r] <:+: loopCode r counter o h :=
  ⟨[], _, rfl⟩

theorem dispatch_infix_whileCode :
    [.setLabel (Scope.numbered counter).start, .case r] <:+: whileCode r counter body :=
  ⟨[], _, rfl⟩

end Infix

/-- The beginning of every loop of a program is followed by a dispatch. -/
theorem Structured.loop_infix_code {n : Nat} (p : Structured n) {temp counter : Nat} {l : Label}
    (scopes : Fin n → Scope) (hl : (.loop, l) ∈ p.scopesMade temp counter) :
    ∃ r, [.setLabel l, .case r] <:+: p.code temp scopes counter := by
  induction p generalizing temp counter with
  | write symbol r => exact absurd hl List.not_mem_nil
  | comment text => exact absurd hl List.not_mem_nil
  | nop => exact absurd hl List.not_mem_nil
  | operands regs => exact absurd hl List.not_mem_nil
  | seq p q ihp ihq =>
    rcases List.mem_append.1 hl with hl | hl
    · exact (ihp scopes hl).imp fun _ h => infix_append_of_infix h
    · exact (ihq scopes hl).imp fun _ h => h.trans (List.suffix_append _ _).isInfix
  | restart k => exact absurd hl List.not_mem_nil
  | exit k => exact absurd hl List.not_mem_nil
  | cases r empty one hash ihe iho ihh =>
    rcases List.mem_append.1 hl with hl | hl
    · rcases List.mem_append.1 hl with hl | hl
      · exact (ihe scopes hl).imp fun _ h => h.trans empty_infix_casesCode
      · exact (iho scopes hl).imp fun _ h => h.trans one_infix_casesCode
    · exact (ihh scopes hl).imp fun _ h => h.trans hash_infix_casesCode
  | block body ih =>
    rcases List.mem_cons.1 hl with hl | hl
    · cases hl
    · exact (ih _ hl).imp fun _ h => h.trans infix_blockCode
  | loopOn r one hash iho ihh =>
    rcases List.mem_cons.1 hl with hl | hl
    · cases hl
      exact ⟨r, dispatch_infix_loopCode⟩
    · rcases List.mem_append.1 hl with hl | hl
      · exact (iho _ hl).imp fun _ h => h.trans one_infix_loopCode
      · exact (ihh _ hl).imp fun _ h => h.trans hash_infix_loopCode
  | repeatOn r one hash iho ihh =>
    rcases List.mem_cons.1 hl with hl | hl
    · cases hl
      exact ⟨r, dispatch_infix_loopCode⟩
    · rcases List.mem_append.1 hl with hl | hl
      · exact (iho scopes hl).imp fun _ h => h.trans one_infix_loopCode
      · exact (ihh scopes hl).imp fun _ h => h.trans hash_infix_loopCode
  | whileNonempty r body ih =>
    rcases List.mem_cons.1 hl with hl | hl
    · cases hl
      exact ⟨r, dispatch_infix_whileCode⟩
    · exact (ih scopes hl).imp fun _ h => h.trans body_infix_whileCode
  | withTemp body ih => exact ih _ scopes hl

/-- No jump goes idly to a label that is followed by a dispatch. -/
theorem not_idleJumpAt_of_infix {code : List Instruction} {l : Label} {r : Reg} {i : Nat}
    (hnodup : (definedLabels code).Nodup) (h : [.setLabel l, .case r] <:+: code) :
    ¬ IdleJumpAt code i l := by
  intro hidle
  have hself := (lookup_eq_some_extent_iff hnodup hidle.1).2 hidle
  obtain ⟨before, after, hcode⟩ := h
  have hlabel : code[before.length]? = some (.setLabel l) := by
    rw [← hcode]
    simp
  have hcase : code[before.length + 1]? = some (.case r) := by
    rw [← hcode]
    simp
  have hplace := (lookup_labelPositions_eq_some_iff hnodup).2 ⟨before.length, hlabel, rfl⟩
  have hextent := Option.some.inj (hplace.symm.trans hself)
  -- the jump stands at the position of the label, but on neither side of the dispatch it can
  rcases Nat.lt_or_ge i before.length with hlt | hge
  · cases (extent_take_eq_iff (Nat.le_of_lt hlt)).1 hextent.symm i _ (Nat.le_refl i) hlt hidle.1
  · rcases Nat.lt_or_ge (before.length + 1) i with hlt | hle
    · cases (extent_take_eq_iff hge).1 hextent _ _ (Nat.le_succ _) hlt hcase
    · have hjump := hidle.1
      obtain rfl | rfl : i = before.length ∨ i = before.length + 1 := by omega
      · rw [hlabel] at hjump
        cases hjump
      · rw [hcase] at hjump
        cases hjump

/-! ## Whole programs -/

namespace Structured

/-- At index `i` the finished code of a whole program restarts a scope with nothing real since the
beginning of the scope. -/
def IdleRestartAt (p : Structured 0) (base : Nat) (finished : List Instruction) (i : Nat)
    (l : Label) : Prop :=
  (∃ kind, (kind, l) ∈ p.scopesMade (max base 1) 0) ∧ IdleJumpAt finished i l

theorem aimed_finished (p : Structured 0) (temp : Nat) (hallowed : p.Allowed temp) :
    AllAt (Instruction.Aimed (labelPositions 0 (p.code temp Fin.elim0 0))
      fun l => ∃ kind, (kind, l) ∈ p.scopesMade temp 0) 0 (p.code temp Fin.elim0 0) := by
  have hplaced : Placed (labelPositions 0 (p.code temp Fin.elim0 0)) 0 (p.code temp Fin.elim0 0) :=
    placed_labelPositions (p.nodup_definedLabels_code temp 0 Fin.elim0)
  have hscopes : ScopesPlaced (labelPositions 0 (p.code temp Fin.elim0 0)) Fin.elim0 0
      (0 + p.size temp) Fin.elim0 := ⟨fun k => k.elim0, fun k => k.elim0⟩
  exact p.aimed_code hallowed hplaced hscopes (fun k => k.elim0) fun s hs => ⟨s.1, hs⟩

/-- **Structured builds resolve, or restart a scope idly.** Building an allowed program succeeds,
every label that its code jumps to is defined once, and the code resolves unless a scope is
restarted with nothing real since its beginning; the first such jump is then what is reported. The
scope of a loop is never the cause. -/
theorem compile_resolves_or_selfJump (p : Structured 0) (base : Nat)
    (hallowed : p.Allowed (max base 1)) :
    ∃ finished, p.compile base = .ok finished ∧
      (∀ l, .jump l ∈ finished → (definedLabels finished).count l = 1) ∧
      ((∃ loaded, resolve finished = .ok loaded) ∨ ∃ l, resolve finished = .error (.selfJump l)) ∧
      (∀ l, resolve finished = .error (.selfJump l) ↔
        ∃ i, p.IdleRestartAt base finished i l ∧
          ∀ k < i, ∀ l', ¬ p.IdleRestartAt base finished k l') ∧
      ∀ l, (.loop, l) ∈ p.scopesMade (max base 1) 0 → ∀ i, ¬ p.IdleRestartAt base finished i l := by
  have hnodup := p.nodup_definedLabels_code (max base 1) 0 Fin.elim0
  have haimed := p.aimed_finished (max base 1) hallowed
  have herror := fun e => resolve_eq_error_iff_of_aimed (e := e) hnodup haimed
  refine ⟨_, compile_eq_ok_iff.2 ⟨hallowed, rfl, hnodup⟩, ?_, ?_, ?_, ?_⟩
  · intro l hjump
    obtain ⟨i, hi⟩ := List.mem_iff_getElem?.1 hjump
    obtain ⟨target, hl, -⟩ := haimed.of_getElem? hi
    apply List.count_eq_one_of_mem hnodup
    rw [← map_fst_labelPositions 0]
    exact List.mem_map_of_mem (mem_of_lookup_eq_some hl)
  · cases hresolve : resolve (p.code (max base 1) Fin.elim0 0) with
    | ok loaded => exact .inl ⟨loaded, rfl⟩
    | error e =>
      obtain ⟨i, l, rfl, -⟩ := (herror e).1 hresolve
      exact .inr ⟨l, rfl⟩
  · intro l
    rw [herror]
    constructor
    · rintro ⟨i, l', heq, hstart, hidle, hfirst⟩
      cases heq
      exact ⟨i, ⟨hstart, hidle⟩, fun k hk l' hidle' => hfirst k hk l' hidle'.1 hidle'.2⟩
    · rintro ⟨i, hidle, hfirst⟩
      exact ⟨i, l, rfl, hidle.1, hidle.2, fun k hk l' hstart hidle' =>
        hfirst k hk l' ⟨hstart, hidle'⟩⟩
  · intro l hl i hidle
    obtain ⟨r, hinfix⟩ := p.loop_infix_code Fin.elim0 hl
    exact not_idleJumpAt_of_infix hnodup hinfix hidle.2

/-- Blocks that begin at the same position, around a loop that restarts one of them in time, and
then a restart of the outer one with nothing but markers before it. -/
def idleBlocks : Structured 0 :=
  seq (block (seq (loopOn ⟨1⟩ (restart (.last _)) (exit (.last _))) (write .one ⟨2⟩)))
    (block (block (seq (comment "again") (seq nop (restart (.last _))))))

theorem compile_resolves_or_selfJump_idleBlocks :
    idleBlocks.Allowed 10 ∧ ∃ finished, idleBlocks.compile 10 = .ok finished ∧
      resolve finished = .error (.selfJump ⟨"start8"⟩) ∧
        ∃ i, idleBlocks.IdleRestartAt 10 finished i ⟨"start8"⟩ ∧
          ∀ k < i, ∀ l, ¬ idleBlocks.IdleRestartAt 10 finished k l := by
  have hallowed : idleBlocks.Allowed 10 := by
    simp [idleBlocks, Allowed, Reg.UsableBelow]
  obtain ⟨finished, hcompile, -, -, hself, -⟩ :=
    compile_resolves_or_selfJump idleBlocks 10 hallowed
  have hcode : idleBlocks.compile 10 = .ok (idleBlocks.code 10 Fin.elim0 0) := by
    decide +kernel
  obtain rfl := Except.ok.inj (hcompile.symm.trans hcode)
  have hresolve : resolve (idleBlocks.code 10 Fin.elim0 0) = .error (.selfJump ⟨"start8"⟩) := by
    decide +kernel
  exact ⟨hallowed, _, hcode, hresolve, (hself ⟨"start8"⟩).1 hresolve⟩

end Structured

end TextMachine
