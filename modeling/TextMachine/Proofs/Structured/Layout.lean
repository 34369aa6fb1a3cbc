import TextMachine.Proofs.Build.Emission
import TextMachine.Proofs.Structured.Basic

/-!
# The code of structured programs

Where the control structures put the code of a structured program depends on nothing but the
program, the scopes it stands in, the first free temporary and the label counter.
`Structured.emits_build` says so, together with the exact condition under which building succeeds:
every register that the program uses is usable where it is used, the operands of every routine
differ, and the labels are new.

What stands where in the code of a control structure is said once, for whatever may be asked of an
instruction at its position: `allAt_blockCode`, `allAt_casesCode`, `AllAt.loopCode` and
`AllAt.whileCode`.
-/

namespace TextMachine

/-! ## Code of the control structures -/

section Control

variable {P : Nat → Instruction → Prop} {here counter : Nat} {r : Reg}
  {body e o h : List Instruction}

theorem extent_blockCode (counter : Nat) (body : List Instruction) :
    extent (blockCode counter body) = extent body := by
  simp [blockCode]

theorem extent_casesCode (r : Reg) (counter : Nat) (e o h : List Instruction) :
    extent (casesCode r counter e o h) = extent e + extent o + extent h + 7 := by
  simp only [casesCode, extent_append, extent_cons, extent_nil, Instruction.width_case,
    Instruction.width_jump, Instruction.width_setLabel]
  omega

theorem extent_loopCode (r : Reg) (counter : Nat) (o h : List Instruction) :
    extent (loopCode r counter o h) = extent o + extent h + 10 := by
  simp only [loopCode, extent_blockCode, extent_casesCode, extent_append, extent_cons, extent_nil,
    Instruction.width_jump]
  omega

theorem extent_whileCode (r : Reg) (counter : Nat) (c : List Instruction) :
    extent (whileCode r counter c) = extent c + 9 := by
  simp only [whileCode, extent_blockCode, extent_casesCode, extent_append, extent_cons, extent_nil,
    Instruction.width_jump]
  omega

/-- A block lies between its two labels. -/
theorem allAt_blockCode :
    AllAt P here (blockCode counter body) ↔
      P here (.setLabel (Scope.numbered counter).start) ∧ AllAt P here body ∧
        P (here + extent body) (.setLabel (Scope.numbered counter).finish) := by
  simp only [blockCode, List.cons_append, allAt_cons, allAt_append, Instruction.width_setLabel,
    Nat.add_zero, allAt_nil, and_true]

/-- A dispatch: the table of jumps, and the bodies between their labels and their ways out. The last
body runs into the end. -/
structure CasesAt (P : Nat → Instruction → Prop) (here counter : Nat) (r : Reg)
    (e o h : List Instruction) : Prop where
  case : P here (.case r)
  toEmpty : P (here + 1) (.jump (.numbered "empty" counter))
  toOne : P (here + 2) (.jump (.numbered "one" (counter + 1)))
  toHash : P (here + 3) (.jump (.numbered "hash" (counter + 2)))
  toPost : P (here + 4) (.jump (.numbered "post" (counter + 3)))
  onEmpty : P (here + 5) (.setLabel (.numbered "empty" counter))
  empty : AllAt P (here + 5) e
  fromEmpty : P (here + 5 + extent e) (.jump (.numbered "post" (counter + 3)))
  onOne : P (here + 6 + extent e) (.setLabel (.numbered "one" (counter + 1)))
  one : AllAt P (here + 6 + extent e) o
  fromOne : P (here + 6 + extent e + extent o) (.jump (.numbered "post" (counter + 3)))
  onHash : P (here + 7 + extent e + extent o) (.setLabel (.numbered "hash" (counter + 2)))
  hash : AllAt P (here + 7 + extent e + extent o) h
  post : P (here + 7 + extent e + extent o + extent h)
    (.setLabel (.numbered "post" (counter + 3)))

theorem allAt_casesCode :
    AllAt P here (casesCode r counter e o h) ↔ CasesAt P here counter r e o h := by
  -- positions come out as sums of widths; these are the ones past the first body
  have hempty : here + (5 + extent e) = here + 5 + extent e := by omega
  have honOne : here + 5 + extent e + 1 = here + 6 + extent e := by omega
  have hone : here + (5 + extent e + 1) = here + 6 + extent e := by omega
  have hfromOne : here + (5 + extent e + 1 + extent o) = here + 6 + extent e + extent o := by
    omega
  have honHash : here + 6 + extent e + extent o + 1 = here + 7 + extent e + extent o := by omega
  have hhash : here + (5 + extent e + 1 + extent o + 1) = here + 7 + extent e + extent o := by
    omega
  have hpost : here + (5 + extent e + 1 + extent o + 1 + extent h) =
      here + 7 + extent e + extent o + extent h := by omega
  simp only [casesCode, allAt_append, allAt_cons, allAt_nil, and_true, extent_append, extent_cons,
    extent_nil, Instruction.width_case, Instruction.width_jump, Instruction.width_setLabel,
    Nat.add_zero, Nat.reduceAdd, hempty, honOne, hone, hfromOne, honHash, hhash, hpost]
  constructor
  · rintro ⟨⟨⟨⟨⟨⟨⟨hcase, h₁, h₂, h₃, h₄, h₅⟩, he⟩, h₆, h₇⟩, ho⟩, h₈, h₉⟩, hh⟩, hend⟩
    exact ⟨hcase, h₁, h₂, h₃, h₄, h₅, he, h₆, h₇, ho, h₈, h₉, hh, hend⟩
  · rintro ⟨hcase, h₁, h₂, h₃, h₄, h₅, he, h₆, h₇, ho, h₈, h₉, hh, hend⟩
    exact ⟨⟨⟨⟨⟨⟨⟨hcase, h₁, h₂, h₃, h₄, h₅⟩, he⟩, h₆, h₇⟩, ho⟩, h₈, h₉⟩, hh⟩, hend⟩

/-- A loop: a dispatch between its two labels that leaves when the register is empty. Both bodies
are followed by a jump back. -/
structure LoopAt (P : Nat → Instruction → Prop) (here counter : Nat) (r : Reg)
    (o h : List Instruction) : Prop where
  start : P here (.setLabel (Scope.numbered counter).start)
  cases : CasesAt P here (counter + 2) r [.jump (Scope.numbered counter).finish]
    (o ++ [.jump (Scope.numbered counter).start]) (h ++ [.jump (Scope.numbered counter).start])
  exit : P (here + 5) (.jump (Scope.numbered counter).finish)
  one : AllAt P (here + 7) o
  oneBack : P (here + 7 + extent o) (.jump (Scope.numbered counter).start)
  hash : AllAt P (here + 9 + extent o) h
  hashBack : P (here + 9 + extent o + extent h) (.jump (Scope.numbered counter).start)
  finish : P (here + 10 + extent o + extent h) (.setLabel (Scope.numbered counter).finish)

theorem AllAt.loopCode (hall : AllAt P here (loopCode r counter o h)) :
    LoopAt P here counter r o h := by
  obtain ⟨hstart, hbody, hfinish⟩ := allAt_blockCode.1 hall
  have hcases := allAt_casesCode.1 hbody
  obtain ⟨hone, honeBack, -⟩ := allAt_append.1 hcases.one
  obtain ⟨hhash, hhashBack, -⟩ := allAt_append.1 hcases.hash
  simp only [extent_casesCode, extent_append, extent_cons, extent_nil, Instruction.width_jump]
    at hfinish hone honeBack hhash hhashBack
  refine ⟨hstart, hcases, hcases.empty.1, hone, honeBack, hhash.of_eq (by omega), ?_, ?_⟩
  · rwa [show here + 9 + extent o = here + 7 + (1 + 0) + (extent o + (1 + 0)) by omega]
  · rwa [show here + 10 + extent o + extent h =
      here + (1 + 0 + (extent o + (1 + 0)) + (extent h + (1 + 0)) + 7) by omega]

/-- A loop that drops a symbol in each pass: a dispatch that leaves or runs through, the body, and a
jump back. -/
structure WhileAt (P : Nat → Instruction → Prop) (here counter : Nat) (r : Reg)
    (code : List Instruction) : Prop where
  start : P here (.setLabel (Scope.numbered counter).start)
  cases : CasesAt P here (counter + 2) r [.jump (Scope.numbered counter).finish] [] []
  exit : P (here + 5) (.jump (Scope.numbered counter).finish)
  body : AllAt P (here + 8) code
  back : P (here + 8 + extent code) (.jump (Scope.numbered counter).start)
  finish : P (here + 9 + extent code) (.setLabel (Scope.numbered counter).finish)

theorem AllAt.whileCode (hall : AllAt P here (whileCode r counter body)) :
    WhileAt P here counter r body := by
  obtain ⟨hstart, hinside, hfinish⟩ := allAt_blockCode.1 hall
  rw [List.append_assoc] at hinside hfinish
  obtain ⟨htest, hrest⟩ := allAt_append.1 hinside
  obtain ⟨hbody, hback, -⟩ := allAt_append.1 hrest
  have hcases := allAt_casesCode.1 htest
  simp only [extent_casesCode, extent_append, extent_cons, extent_nil, Instruction.width_jump,
    Nat.reduceAdd] at hfinish hbody hback
  refine ⟨hstart, hcases, hcases.empty.1, hbody, hback, ?_⟩
  rwa [show here + 9 + extent body = here + (8 + (extent body + 1)) by omega]

end Control

namespace Structured

variable {n : Nat} {σ : Type}

/-- How many labels the code of a program takes. -/
def labels {n : Nat} (temp : Nat) : Structured n → Nat
  | write _ _ => 0
  | comment _ => 0
  | nop => 0
  | operands _ => 0
  | seq p q => p.labels temp + q.labels temp
  | restart _ => 0
  | exit _ => 0
  | cases _ empty one hash => empty.labels temp + one.labels temp + hash.labels temp + 4
  | block body => body.labels temp + 2
  | loopOn _ one hash => one.labels temp + hash.labels temp + 6
  | repeatOn _ one hash => one.labels temp + hash.labels temp + 6
  | whileNonempty _ body => body.labels temp + 6
  | withTemp body => (body ⟨temp⟩).labels (temp + 1)

/-- The code of a program, with labels made from `counter` on. -/
def code {n : Nat} (temp : Nat) : Structured n → (Fin n → Scope) → (counter : Nat) →
    List Instruction
  | write symbol r, _, _ => [.write symbol r]
  | comment text, _, _ => [.comment text]
  | nop, _, _ => [.nop]
  | operands _, _, _ => []
  | seq p q, scopes, counter =>
    p.code temp scopes counter ++ q.code temp scopes (counter + p.labels temp)
  | restart k, scopes, _ => [.jump (scopes k).start]
  | exit k, scopes, _ => [.jump (scopes k).finish]
  | cases r empty one hash, scopes, counter =>
    let afterEmpty := counter + 4 + empty.labels temp
    casesCode r counter (empty.code temp scopes (counter + 4)) (one.code temp scopes afterEmpty)
      (hash.code temp scopes (afterEmpty + one.labels temp))
  | block body, scopes, counter =>
    blockCode counter (body.code temp (Fin.cons (.numbered counter) scopes) (counter + 2))
  | loopOn r one hash, scopes, counter =>
    let scopes := Fin.cons (.numbered counter) scopes
    loopCode r counter (one.code temp scopes (counter + 6))
      (hash.code temp scopes (counter + 6 + one.labels temp))
  | repeatOn r one hash, scopes, counter =>
    loopCode r counter (one.code temp scopes (counter + 6))
      (hash.code temp scopes (counter + 6 + one.labels temp))
  | whileNonempty r body, scopes, counter =>
    whileCode r counter (body.code temp scopes (counter + 6))
  | withTemp body, scopes, counter => (body ⟨temp⟩).code (temp + 1) scopes counter

/-- Every register that a program uses is usable where it is used, and the operands of every routine
differ. -/
def Allowed {n : Nat} (temp : Nat) : Structured n → Prop
  | write _ r => r.UsableBelow temp
  | comment _ => True
  | nop => True
  | operands regs => regs.Nodup ∧ ∀ r ∈ regs, r.UsableBelow temp
  | seq p q => p.Allowed temp ∧ q.Allowed temp
  | restart _ => True
  | exit _ => True
  | cases r empty one hash =>
    r.UsableBelow temp ∧ empty.Allowed temp ∧ one.Allowed temp ∧ hash.Allowed temp
  | block body => body.Allowed temp
  | loopOn r one hash => r.UsableBelow temp ∧ one.Allowed temp ∧ hash.Allowed temp
  | repeatOn r one hash => r.UsableBelow temp ∧ one.Allowed temp ∧ hash.Allowed temp
  | whileNonempty r body => r.UsableBelow temp ∧ body.Allowed temp
  | withTemp body => (body ⟨temp⟩).Allowed (temp + 1)

/-- What building a structured program does while the temporaries in use are those before `temp`.
-/
theorem emits_build (p : Structured n) {pool : Pool} {temp : Nat} (hpool : pool.FilledTo temp)
    (counter : Nat) (scopes : Fin n → Scope) :
    Build.Emits (p.build scopes : Build σ Unit) pool counter (p.Allowed temp)
      (p.code temp scopes counter) (p.labels temp) := by
  induction p generalizing pool temp counter with
  | write symbol r => exact (Build.Emits.write symbol r).congr (hpool.usable_iff r) rfl rfl
  | comment text => exact .emit rfl
  | nop => exact .emit rfl
  | operands regs =>
    have husable : (∀ r ∈ regs, pool.Usable r) ↔ ∀ r ∈ regs, r.UsableBelow temp :=
      forall₂_congr fun r _ => hpool.usable_iff r
    exact (Build.Emits.checkOperands regs).congr (and_congr_right' husable) rfl rfl
  | seq p q ihp ihq => exact .bind (ihp hpool _ _) (ihq hpool _ _)
  | restart k => exact .jump _
  | exit k => exact .jump _
  | cases r empty one hash ihe iho ihh =>
    exact (Build.Emits.cases (ihe hpool _ _) (iho hpool _ _) (ihh hpool _ _)).congr
      (and_congr_left' (hpool.usable_iff r)) rfl rfl
  | block body ih => exact .block (ih hpool _ _)
  | loopOn r one hash iho ihh =>
    exact (Build.Emits.loopOn (iho hpool _ _) (ihh hpool _ _)).congr
      (and_congr_left' (hpool.usable_iff r)) rfl rfl
  | repeatOn r one hash iho ihh =>
    exact (Build.Emits.repeatOn (iho hpool _ _) (ihh hpool _ _)).congr
      (and_congr_left' (hpool.usable_iff r)) rfl rfl
  | whileNonempty r body ih =>
    exact (Build.Emits.whileNonempty (ih hpool _ _)).congr
      (and_congr_left' (hpool.usable_iff r)) rfl rfl
  | withTemp body ih =>
    apply Build.Emits.withTemp
    rw [hpool.leastFree_eq]
    exact ih ⟨temp⟩ hpool.take counter scopes

/-- Compiling succeeds exactly when a program is allowed and its labels differ, and then gives its
code. -/
theorem compile_eq_ok_iff {p : Structured 0} {base : Nat} {finished : List Instruction} :
    p.compile base = .ok finished ↔
      p.Allowed (max base 1) ∧ finished = p.code (max base 1) Fin.elim0 0 ∧
        (definedLabels finished).Nodup := by
  have hemits : (p.build Fin.elim0 : Build Unit Unit).Emits (.startingAt base) 0 _ _ _ :=
    p.emits_build (Pool.startingAt_filledTo base) 0 Fin.elim0
  obtain ⟨hok, hfail⟩ := hemits (.startingAt base) rfl rfl rfl ()
  -- a new builder has defined nothing, so all that counts is that the labels differ
  have hadmits : ∀ labels, (Builder.startingAt base).Admits labels ↔ labels.Nodup := by
    intro labels
    simp [Builder.Admits, Builder.startingAt]
  rw [hadmits] at hok hfail
  unfold compile
  by_cases hcond : p.Allowed (max base 1) ∧
      (definedLabels (p.code (max base 1) Fin.elim0 0)).Nodup
  · rw [hok hcond]
    have hcode : ((Builder.startingAt base).extend (p.code (max base 1) Fin.elim0 0)
        (p.labels (max base 1))).code.toList = p.code (max base 1) Fin.elim0 0 := by
      simp [Builder.extend, Builder.startingAt]
    simp only [hcode, Except.ok.injEq]
    constructor
    · rintro rfl
      exact ⟨hcond.1, rfl, hcond.2⟩
    · rintro ⟨-, rfl, -⟩
      rfl
  · obtain ⟨e, b', herr, -⟩ := hfail hcond
    rw [herr]
    constructor
    · intro h
      cases h
    · rintro ⟨hallowed, rfl, hnodup⟩
      exact absurd ⟨hallowed, hnodup⟩ hcond

theorem perform_of_compile {p : Structured 0} {base : Nat} {finished : List Instruction}
    (h : p.compile base = .ok finished) :
    ∃ b, (p.build Fin.elim0 : Build Unit Unit).perform (.startingAt base) () = (.ok (), b, ()) ∧
      b.code.toList = finished := by
  unfold compile at h
  split at h
  next b s hperform =>
    cases h
    exact ⟨b, hperform, rfl⟩
  next => cases h

end Structured

end TextMachine
