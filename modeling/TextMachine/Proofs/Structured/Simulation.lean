import TextMachine.Proofs.Structured.Layout

/-!
# Structured programs and their code

A piece of code *implements* a behaviour when the machine, started at the beginning of the code,
does what the behaviour says and nothing else. `Implements` states both halves. What the behaviour
can do, the machine does: it gets from the beginning of the code to where the end in question leads.
And where the machine comes to a stop at all, the behaviour has an end too. Since the machine is
deterministic, the two determine each other.

Each control structure implements its behaviour if its parts do. For loops the second half is an
induction on the number of steps until the stop: a pass that leads back to the beginning makes at
least one step, which is why `Implements` also keeps a least number of steps for every end.
-/

namespace TextMachine

open Behaviour

/-- The code at position `pc` realises a behaviour: an end `e` leads to position `target e`, in at
least `least e` steps. -/
structure Implements {ε : Type} (ops : List Op) (pc : Nat) (target least : ε → Nat)
    (b : Behaviour ε) : Prop where
  reaches : ∀ {st : Store} {e : ε} {st' : Store}, b st e st' →
    ∃ m, least e ≤ m ∧ State.after? ops m ⟨pc, st⟩ = some ⟨target e, st'⟩
  ends : ∀ {n : Nat} {st : Store}, State.HaltsIn ops n ⟨pc, st⟩ → ∃ e st', b st e st'

namespace Implements

variable {ε δ : Type} {ops : List Op} {pc : Nat} {target least : ε → Nat} {b : Behaviour ε}

/-! ## Behaviours in general -/

/-- Ends may be read in another way if they still lead to the same positions. -/
theorem map {f : ε → δ} {target' least' : δ → Nat} (h : Implements ops pc target least b)
    (htarget : ∀ e, target' (f e) = target e) (hleast : ∀ e, least' (f e) ≤ least e) :
    Implements ops pc target' least' (b.map f) where
  reaches := by
    rintro st d st' ⟨e, he, rfl⟩
    obtain ⟨m, hm, hafter⟩ := h.reaches he
    refine ⟨m, Nat.le_trans (hleast e) hm, ?_⟩
    rw [hafter, htarget]
  ends := by
    intro n st hhalt
    obtain ⟨e, st', he⟩ := h.ends hhalt
    exact ⟨f e, st', e, he, rfl⟩

/-- Passes that lead back to the beginning make a loop. -/
theorem repeats {pass : Behaviour (Option ε)}
    (h : Implements ops pc (fun next => next.elim pc target) (fun next => next.elim 1 least) pass) :
    Implements ops pc target least (Repeats pass) where
  reaches := by
    intro st e st' hrepeats
    induction hrepeats with
    | leave hpass => exact h.reaches hpass
    | again hpass _ ih =>
      obtain ⟨m, -, hpassed⟩ := h.reaches hpass
      obtain ⟨k, hk, hrest⟩ := ih
      exact ⟨m + k, Nat.le_trans hk (Nat.le_add_left k m), State.after?_trans hpassed hrest⟩
  ends := by
    -- by induction on the steps that are left: a pass that comes back uses up at least one
    intro n
    induction n using Nat.strongRecOn with
    | _ n ih =>
      intro st hhalt
      obtain ⟨next, mid, hpass⟩ := h.ends hhalt
      cases next with
      | some e => exact ⟨e, mid, .leave hpass⟩
      | none =>
        obtain ⟨m, hm, hpassed⟩ := h.reaches hpass
        have hpos : 1 ≤ m := hm
        obtain ⟨hle, hhalt'⟩ := hhalt.after hpassed
        obtain ⟨e, st', hrest⟩ := ih (n - m) (by omega) hhalt'
        exact ⟨e, st', .again hpass hrest⟩

/-- No code at all. -/
theorem stay {e : ε} (htarget : target e = pc) (hleast : least e = 0) :
    Implements ops pc target least (stay e) where
  reaches := by
    rintro st _ _ ⟨rfl, rfl⟩
    refine ⟨0, Nat.le_of_eq hleast, ?_⟩
    rw [State.after?_zero, htarget]
  ends := fun {_ st} _ => ⟨e, st, rfl, rfl⟩

/-- A jump. -/
theorem jump {e : ε} (hjump : JumpsTo ops pc (target e)) (hleast : least e ≤ 1) :
    Implements ops pc target least (Behaviour.stay e) where
  reaches := by
    rintro st _ _ ⟨rfl, rfl⟩
    exact ⟨1, hleast, State.after?_one_of_jumpsTo hjump _⟩
  ends := fun {_ st} _ => ⟨e, st, rfl, rfl⟩

/-- A dispatch that takes two steps to the body for the first symbol. -/
theorem dispatch {r : Reg} {onEmpty onOne onHash : Nat} {empty one hash : Behaviour ε}
    (hnone : ∀ st : Store, st.first? r = none →
      State.after? ops 2 ⟨pc, st⟩ = some ⟨onEmpty, st⟩)
    (hone : ∀ st : Store, st.first? r = some .one →
      State.after? ops 2 ⟨pc, st⟩ = some ⟨onOne, st.drop r⟩)
    (hhash : ∀ st : Store, st.first? r = some .hash →
      State.after? ops 2 ⟨pc, st⟩ = some ⟨onHash, st.drop r⟩)
    (he : Implements ops onEmpty target least empty)
    (ho : Implements ops onOne target least one)
    (hh : Implements ops onHash target least hash) :
    Implements ops pc target least (dispatch r empty one hash) := by
  -- whatever the first symbol is, two steps lead to the body for it
  have hstart : ∀ st : Store, ∃ body entry st₀, Behaviour.dispatch r empty one hash st = body st₀ ∧
      State.after? ops 2 ⟨pc, st⟩ = some ⟨(entry : Nat), st₀⟩ ∧
        Implements ops entry target least body := by
    intro st
    rcases hfirst : st.first? r with _ | _ | _
    · exact ⟨empty, onEmpty, st, dispatch_of_none hfirst, hnone st hfirst, he⟩
    · exact ⟨one, onOne, st.drop r, dispatch_of_one hfirst, hone st hfirst, ho⟩
    · exact ⟨hash, onHash, st.drop r, dispatch_of_hash hfirst, hhash st hfirst, hh⟩
  constructor
  · intro st e st' hrun
    obtain ⟨body, entry, st₀, hbody, hsteps, himpl⟩ := hstart st
    rw [hbody] at hrun
    obtain ⟨m, hm, hafter⟩ := himpl.reaches hrun
    exact ⟨2 + m, Nat.le_trans hm (Nat.le_add_left m 2), State.after?_trans hsteps hafter⟩
  · intro n st hhalt
    obtain ⟨body, entry, st₀, hbody, hsteps, himpl⟩ := hstart st
    rw [hbody]
    exact himpl.ends (hhalt.after hsteps).2

end Implements

/-! ## Ends of structured programs -/

namespace Ending

variable {n : Nat}

/-- Where an end leads: past the code, or to a label of an enclosing scope. -/
def target (place : Label → Nat) (scopes : Fin n → Scope) (past : Nat) : Ending n → Nat
  | finish => past
  | restart k => place (scopes k).start
  | exit k => place (scopes k).finish

/-- How many steps it takes at least to come to an end. Only the end of the code is reached without
a jump. -/
def least : Ending n → Nat
  | finish => 0
  | restart _ => 1
  | exit _ => 1

end Ending

section Pieces

variable {n : Nat} {place : Label → Nat} {ops : List Op} {pc mid past : Nat}
  {scopes : Fin n → Scope}

theorem implements_write {s : Symbol} {r : Reg} (hwrite : ops[pc]? = some (.write s r)) :
    Implements ops pc (Ending.target place scopes (pc + 1)) Ending.least
      (fun st e st' => e = .finish ∧ st' = st.write s r) where
  reaches := by
    rintro st _ _ ⟨rfl, rfl⟩
    refine ⟨1, Nat.zero_le 1, ?_⟩
    rw [State.after?_one, State.step?_of_getElem? hwrite]
    simp [Op.act, Ending.target]
  ends := fun {_ st} _ => ⟨.finish, st.write s r, rfl, rfl⟩

theorem implements_restart (k : Fin n) (hjump : JumpsTo ops pc (place (scopes k).start)) :
    Implements ops pc (Ending.target place scopes past) Ending.least
      (Behaviour.stay (.restart k)) :=
  .jump hjump (Nat.le_refl 1)

theorem implements_exit (k : Fin n) (hjump : JumpsTo ops pc (place (scopes k).finish)) :
    Implements ops pc (Ending.target place scopes past) Ending.least (Behaviour.stay (.exit k)) :=
  .jump hjump (Nat.le_refl 1)

/-- Code that runs through into more code. -/
theorem Implements.andThen {first second : Behaviour (Ending n)}
    (hfirst : Implements ops pc (Ending.target place scopes mid) Ending.least first)
    (hsecond : Implements ops mid (Ending.target place scopes past) Ending.least second) :
    Implements ops pc (Ending.target place scopes past) Ending.least (first.andThen second) where
  reaches := by
    rintro st e st' (⟨st₁, hrun, hrest⟩ | ⟨hne, hrun⟩)
    · obtain ⟨m, -, hm⟩ := hfirst.reaches hrun
      obtain ⟨k, hleast, hk⟩ := hsecond.reaches hrest
      exact ⟨m + k, Nat.le_trans hleast (Nat.le_add_left k m), State.after?_trans hm hk⟩
    · obtain ⟨m, hleast, hm⟩ := hfirst.reaches hrun
      refine ⟨m, hleast, hm.trans ?_⟩
      cases e with
      | finish => exact absurd rfl hne
      | restart k => rfl
      | exit k => rfl
  ends := by
    intro n st hhalt
    obtain ⟨e, st₁, hrun⟩ := hfirst.ends hhalt
    -- a first part that runs through leaves the machine at the second, still bound to stop
    by_cases hfinish : e = .finish
    · subst hfinish
      obtain ⟨m, -, hm⟩ := hfirst.reaches hrun
      obtain ⟨e, st', hrest⟩ := hsecond.ends (hhalt.after hm).2
      exact ⟨e, st', .inl ⟨st₁, hrun, hrest⟩⟩
    · exact ⟨e, st₁, .inr ⟨hfinish, hrun⟩⟩

/-- Code that ends with a jump to where it leads. -/
theorem Implements.thenJump {b : Behaviour (Ending n)}
    (h : Implements ops pc (Ending.target place scopes mid) Ending.least b)
    (hjump : JumpsTo ops mid past) :
    Implements ops pc (Ending.target place scopes past) Ending.least b := by
  have hpost : Implements ops mid (Ending.target place scopes past) Ending.least
      (Behaviour.stay .finish) := .jump hjump (Nat.zero_le 1)
  have hboth := h.andThen hpost
  -- nothing happens after the jump, so the behaviour is the same
  rwa [Behaviour.andThen_stay_finish] at hboth

/-! ## Control structures -/

section Dispatch

variable {counter : Nat} {r : Reg} {e o h : List Instruction} {st : Store}

/-- The dispatch takes two steps: `case` itself, and a jump of the table. -/
theorem CasesAt.after?_two {entry offset : Nat}
    (hload : CasesAt (Instruction.Loaded place ops) pc counter r e o h)
    (hoffset : dispatchOffset (st.first? r) = offset) (hjump : JumpsTo ops (pc + offset) entry) :
    State.after? ops 2 ⟨pc, st⟩ = some ⟨entry, st.drop r⟩ := by
  have hcase : State.after? ops 1 ⟨pc, st⟩ = some ⟨(pc + offset : Nat), st.drop r⟩ := by
    rw [State.after?_one, State.step?_of_getElem? hload.case, Op.act, hoffset]
    rfl
  exact State.after?_trans hcase (State.after?_one_of_jumpsTo hjump _)

theorem CasesAt.after?_of_none (hload : CasesAt (Instruction.Loaded place ops) pc counter r e o h)
    (hfirst : st.first? r = none) :
    State.after? ops 2 ⟨pc, st⟩ = some ⟨(pc + 5 : Nat), st⟩ := by
  have hsteps := hload.after?_two (by rw [hfirst]; rfl) (hload.toEmpty.of_eq rfl hload.onEmpty)
  -- nothing is consumed from an empty register
  rwa [Store.drop_of_first?_eq_none hfirst] at hsteps

theorem CasesAt.after?_of_one (hload : CasesAt (Instruction.Loaded place ops) pc counter r e o h)
    (hfirst : st.first? r = some .one) :
    State.after? ops 2 ⟨pc, st⟩ = some ⟨(pc + 6 + extent e : Nat), st.drop r⟩ :=
  hload.after?_two (by rw [hfirst]; rfl) (hload.toOne.of_eq rfl hload.onOne)

theorem CasesAt.after?_of_hash (hload : CasesAt (Instruction.Loaded place ops) pc counter r e o h)
    (hfirst : st.first? r = some .hash) :
    State.after? ops 2 ⟨pc, st⟩ = some ⟨(pc + 7 + extent e + extent o : Nat), st.drop r⟩ :=
  hload.after?_two (by rw [hfirst]; rfl) (hload.toHash.of_eq rfl hload.onHash)

end Dispatch

/-- A dispatch implements the dispatch among what its bodies implement. -/
theorem implements_cases {r : Reg} {e o h : List Instruction} {counter onOne onHash : Nat}
    {empty one hash : Behaviour (Ending n)}
    (hload : CasesAt (Instruction.Loaded place ops) pc counter r e o h)
    (honOne : onOne = pc + 6 + extent e) (honHash : onHash = onOne + 1 + extent o)
    (hpast : past = onHash + extent h)
    (hempty : Implements ops (pc + 5) (Ending.target place scopes (pc + 5 + extent e))
      Ending.least empty)
    (hone : Implements ops onOne (Ending.target place scopes (onOne + extent o)) Ending.least one)
    (hhash : Implements ops onHash (Ending.target place scopes past) Ending.least hash) :
    Implements ops pc (Ending.target place scopes past) Ending.least
      (dispatch r empty one hash) := by
  have hout : place (.numbered "post" (counter + 3)) = past := hload.post.trans (by omega)
  have hemptyOut := hempty.thenJump (hload.fromEmpty.of_eq rfl hout)
  have honeOut := hone.thenJump (hload.fromOne.of_eq (by omega) hout)
  have honHash' : onHash = pc + 7 + extent e + extent o := by omega
  subst honOne honHash'
  exact .dispatch (fun _ => hload.after?_of_none) (fun _ => hload.after?_of_one)
    (fun _ => hload.after?_of_hash) hemptyOut honeOut hhash

/-- A block implements the repetition of what its body implements. -/
theorem implements_block {counter : Nat} {body : List Instruction}
    {b : Behaviour (Ending (n + 1))} (hload : Loaded place ops pc (blockCode counter body))
    (hbody : Implements ops pc
      (Ending.target place (Fin.cons (.numbered counter) scopes) (pc + extent body))
      Ending.least b) :
    Implements ops pc (Ending.target place scopes (pc + extent body)) Ending.least
      (Repeats (b.map Ending.ofBlockBody)) := by
  obtain ⟨hstart, -, hfinish⟩ := allAt_blockCode.1 hload
  -- only the two ends of the new scope change their meaning: one leads back, one leads out
  refine .repeats (hbody.map ?_ ?_)
  · rintro (_ | ⟨_ | k, hk⟩ | ⟨_ | k, hk⟩)
    · rfl
    · exact hstart.symm
    · rfl
    · exact hfinish.symm
    · rfl
  · rintro (_ | ⟨_ | k, hk⟩ | ⟨_ | k, hk⟩)
    · exact Nat.le_refl 0
    · exact Nat.le_refl 1
    · exact Nat.le_refl 1
    · exact Nat.zero_le 1
    · exact Nat.le_refl 1

/-- Code without a scope of its own, seen from inside one more block. -/
theorem Implements.inside {scope : Scope} {b : Behaviour (Ending n)}
    (h : Implements ops pc (Ending.target place scopes past) Ending.least b) :
    Implements ops pc (Ending.target place (Fin.cons scope scopes) past) Ending.least
      (b.map Ending.inside) := by
  apply h.map
  · intro e
    cases e <;> rfl
  · intro e
    cases e <;> exact Nat.le_refl _

/-- A loop implements its passes: both bodies lead back to the beginning, the empty register leads
out. -/
theorem implements_loop {r : Reg} {counter : Nat} {o h : List Instruction}
    {one hash : Behaviour (Ending (n + 1))} {onHash : Nat}
    (hload : Loaded place ops pc (loopCode r counter o h))
    (honHash : onHash = pc + 9 + extent o) (hpast : past = onHash + extent h + 1)
    (hone : Implements ops (pc + 7)
      (Ending.target place (Fin.cons (.numbered counter) scopes) (pc + 7 + extent o))
      Ending.least one)
    (hhash : Implements ops onHash
      (Ending.target place (Fin.cons (.numbered counter) scopes) (onHash + extent h))
      Ending.least hash) :
    Implements ops pc (Ending.target place scopes past) Ending.least
      (Repeats (dispatch r (Behaviour.stay (some .finish)) (one.map Ending.ofLoopBody)
        (hash.map Ending.ofLoopBody))) := by
  have hloaded := hload.loopCode
  -- each body is followed by its jump, out of the loop or back to its beginning
  have hdispatch : Implements ops pc
      (Ending.target place (Fin.cons (.numbered counter) scopes) past) Ending.least
      (dispatch r (Behaviour.stay (.exit 0)) (one.andThen (Behaviour.stay (.restart 0)))
        (hash.andThen (Behaviour.stay (.restart 0)))) := by
    refine implements_cases hloaded.cases ?_ ?_ ?_ (implements_exit 0 hloaded.exit)
      (hone.andThen (implements_restart 0 hloaded.oneBack))
      (hhash.andThen (implements_restart 0 (hloaded.hashBack.of_eq (by omega) rfl)))
    · rfl
    · simp only [extent_append, extent_cons, extent_nil, Instruction.width_jump]
      omega
    · simp only [extent_append, extent_cons, extent_nil, Instruction.width_jump]
      omega
  have hpast' : past = pc + extent (loopCode r counter o h) := by
    rw [extent_loopCode]
    omega
  rw [hpast', loopCode, extent_blockCode] at hdispatch ⊢
  have hloop := implements_block hload hdispatch
  rwa [map_dispatch, map_stay, andThen_restart_map, andThen_restart_map] at hloop

/-- A loop that drops a symbol in each pass implements its passes. -/
theorem implements_while {r : Reg} {counter : Nat} {c : List Instruction}
    {body : Behaviour (Ending n)} (hload : Loaded place ops pc (whileCode r counter c))
    (hpast : past = pc + 8 + extent c + 1)
    (hbody : Implements ops (pc + 8) (Ending.target place scopes (pc + 8 + extent c))
      Ending.least body) :
    Implements ops pc (Ending.target place scopes past) Ending.least
      (Repeats (dispatch r (Behaviour.stay (some .finish)) (body.map Ending.ofRepeatedBody)
        (body.map Ending.ofRepeatedBody))) := by
  have hloaded := hload.whileCode
  have htest : Implements ops pc
      (Ending.target place (Fin.cons (.numbered counter) scopes) (pc + 8)) Ending.least
      (dispatch r (Behaviour.stay (.exit 0)) (Behaviour.stay .finish)
        (Behaviour.stay .finish)) :=
    implements_cases hloaded.cases rfl rfl rfl (implements_exit 0 hloaded.exit) (.stay rfl rfl)
      (.stay rfl rfl)
  -- the dispatch leaves the loop or runs through to the body, which knows nothing of the scope
  have hpass : Implements ops pc
      (Ending.target place (Fin.cons (.numbered counter) scopes) past) Ending.least _ :=
    htest.andThen (hbody.inside.andThen (implements_restart 0 hloaded.back))
  have hpast' : past = pc + extent (whileCode r counter c) := by
    rw [extent_whileCode]
    omega
  rw [hpast', whileCode, extent_blockCode] at hpass ⊢
  have hloop := implements_block hload hpass
  have hexit : Ending.exit (0 : Fin (n + 1)) ≠ .finish := by
    intro h
    cases h
  rwa [dispatch_andThen, stay_andThen_of_ne hexit, stay_finish_andThen, map_dispatch, map_stay,
    andThen_restart_map, map_inside_map] at hloop

end Pieces

/-! ## Whole programs -/

namespace Structured

/-- Loaded code of a structured program implements what the program does. -/
theorem implements_runs {n : Nat} {place : Label → Nat} {ops : List Op} (p : Structured n)
    {temp counter pc : Nat} {scopes : Fin n → Scope}
    (hload : Loaded place ops pc (p.code temp scopes counter)) :
    Implements ops pc
      (Ending.target place scopes (pc + extent (p.code temp scopes counter))) Ending.least
      (p.Runs temp) := by
  -- the body of `withTemp` is built with the next temporary free, so `temp` changes on the way
  induction p generalizing temp counter pc with
  | write symbol r => exact implements_write hload.1
  | comment text => exact .stay rfl rfl
  | nop => exact .stay rfl rfl
  | operands regs => exact .stay rfl rfl
  | seq p q ihp ihq =>
    obtain ⟨hp, hq⟩ := allAt_append.1 hload
    have hq := ihq hq
    rw [Nat.add_assoc, ← extent_append] at hq
    exact (ihp hp).andThen hq
  | restart k => exact implements_restart k hload.1
  | exit k => exact implements_exit k hload.1
  | cases r empty one hash ihe iho ihh =>
    have hcases := allAt_casesCode.1 hload
    have hpast : pc + extent ((cases r empty one hash).code temp scopes counter) =
        pc + 7 + extent (empty.code temp scopes (counter + 4)) +
          extent (one.code temp scopes (counter + 4 + empty.labels temp)) +
          extent (hash.code temp scopes (counter + 4 + empty.labels temp + one.labels temp)) := by
      rw [code, extent_casesCode]
      omega
    rw [hpast]
    exact implements_cases hcases rfl (by omega) rfl (ihe hcases.empty) (iho hcases.one)
      (ihh hcases.hash)
  | block body ih =>
    obtain ⟨-, hbody, -⟩ := allAt_blockCode.1 hload
    rw [code, extent_blockCode]
    exact implements_block hload (ih hbody)
  | loopOn r one hash iho ihh =>
    have hloaded := hload.loopCode
    refine implements_loop hload rfl ?_ (iho hloaded.one) (ihh hloaded.hash)
    rw [code, extent_loopCode]
    omega
  | repeatOn r one hash iho ihh =>
    have hloaded := hload.loopCode
    have hloop := implements_loop hload rfl rfl (iho hloaded.one).inside
      (ihh hloaded.hash).inside
    rw [map_inside_map, map_inside_map] at hloop
    have hpast : pc + extent ((repeatOn r one hash).code temp scopes counter) =
        pc + 9 + extent (one.code temp scopes (counter + 6)) +
          extent (hash.code temp scopes (counter + 6 + one.labels temp)) + 1 := by
      rw [code, extent_loopCode]
      omega
    rw [hpast]
    exact hloop
  | whileNonempty r body ih =>
    refine implements_while hload ?_ (ih hload.whileCode.body)
    rw [code, extent_whileCode]
    omega
  | withTemp body ih => exact ih _ hload

/-- A whole program has nowhere to end but at its end. -/
theorem implements_terminates {p : Structured 0} {base : Nat} {finished : List Instruction}
    {loaded : Program} (hcompile : p.compile base = .ok finished)
    (hresolve : resolve finished = .ok loaded) :
    Implements loaded.ops 0 (fun _ => loaded.ops.length) (fun _ => 0)
      (fun st (_ : Unit) st' => p.Terminates base st st') := by
  obtain ⟨-, rfl, -⟩ := compile_eq_ok_iff.1 hcompile
  have himpl := implements_runs p (loaded_of_resolve hresolve)
  rw [Nat.zero_add, ← length_ops_of_resolve hresolve] at himpl
  -- there is no scope to restart or to leave
  constructor
  · intro st _ st' hrun
    exact himpl.reaches hrun
  · intro n st hhalt
    obtain ⟨e, st', hrun⟩ := himpl.ends hhalt
    cases e with
    | finish => exact ⟨(), st', hrun⟩
    | restart k => exact k.elim0
    | exit k => exact k.elim0

theorem haltsProperly_of_terminates {p : Structured 0} {base : Nat} {finished : List Instruction}
    {loaded : Program} (hcompile : p.compile base = .ok finished)
    (hresolve : resolve finished = .ok loaded) {rs : Registers} {final : Store}
    (h : p.Terminates base rs.contents final) : HaltsProperly loaded.ops rs final := by
  obtain ⟨m, -, hreach⟩ := (implements_terminates hcompile hresolve).reaches (e := ()) h
  exact haltsProperly_iff.2 ⟨m, hreach⟩

/-- **Compiler correctness.** The code of a structured program halts properly exactly when the
program terminates, with the registers that the program leaves. It never halts in any other way. -/
theorem terminates_iff_haltsProperly {p : Structured 0} {base : Nat} {finished : List Instruction}
    {loaded : Program} (hcompile : p.compile base = .ok finished)
    (hresolve : resolve finished = .ok loaded) (rs : Registers) :
    (∀ final, p.Terminates base rs.contents final ↔ HaltsProperly loaded.ops rs final) ∧
      ∀ n pc c, Config.runFor loaded.ops.toArray n { registers := rs, pc := 0 } ≠
        (.improper pc, c) := by
  have himpl := implements_terminates hcompile hresolve
  -- a run that stops does so at the end of the code, with what the program leaves
  have hstops : ∀ {n : Nat} {t : State}, State.after? loaded.ops n ⟨0, rs.contents⟩ = some t →
      t.step? loaded.ops = none →
      t.pc = loaded.ops.length ∧ p.Terminates base rs.contents t.store := by
    intro n t hafter hstop
    obtain ⟨_, final, hrun⟩ := himpl.ends ⟨t, hafter, hstop⟩
    obtain ⟨m, -, hreach⟩ := himpl.reaches (e := ()) hrun
    obtain ⟨-, rfl⟩ := State.HaltsIn.unique hafter hstop hreach (State.step?_at_length final)
    exact ⟨rfl, hrun⟩
  constructor
  · intro final
    rw [haltsProperly_iff]
    constructor
    · intro hrun
      obtain ⟨m, -, hreach⟩ := himpl.reaches (e := ()) hrun
      exact ⟨m, hreach⟩
    · rintro ⟨n, hafter⟩
      exact (hstops hafter (State.step?_at_length final)).2
  · intro n pc c hrun
    obtain ⟨hend, hstop, m, hafter⟩ := Config.after?_of_runFor hrun nofun
    have hpc : c.pc = loaded.ops.toArray.size := (hstops hafter hstop).1
    rw [Config.halt, if_pos hpc] at hend
    cases hend

/-- A loop inside a loop that leaves both or starts the outer one again, beside a temporary and a
routine. -/
def nestedExits : Structured 0 :=
  loopOn ⟨1⟩
    (seq (write .one ⟨2⟩) (loopOn ⟨3⟩ (exit 1) (restart 1)))
    (withTemp fun temp => move ⟨2⟩ temp)

theorem terminates_iff_haltsProperly_nestedExits : ∃ finished loaded,
    nestedExits.compile 10 = .ok finished ∧ resolve finished = .ok loaded ∧
      ∀ rs final, nestedExits.Terminates 10 rs.contents final ↔
        HaltsProperly loaded.ops rs final := by
  have hcompile : nestedExits.compile 10 = .ok (nestedExits.code 10 Fin.elim0 0) := by
    decide +kernel
  obtain ⟨loaded, hresolve⟩ : ∃ loaded, resolve (nestedExits.code 10 Fin.elim0 0) = .ok loaded :=
    ⟨_, rfl⟩
  exact ⟨_, loaded, hcompile, hresolve,
    fun rs => (terminates_iff_haltsProperly hcompile hresolve rs).1⟩

end Structured

end TextMachine
