import TextMachine.Proofs.Structured.Loops
import TextMachine.Proofs.Structured.Simulation
import Mathlib.Logic.Function.Iterate

/-!
# Loops over a register as folds over its contents

A program that neither writes to a register nor dispatches on it does the same whatever the register
holds, and leaves it as it is: `Structured.ignores_runs`. So the register of a loop can be looked at
apart from the others. Its symbols go one by one, and what the bodies do to the other registers is
what they would do if the register were still whole. What comes of them is the fold of the bodies'
effects over the contents of the register (`loops_are_folds`).
-/

namespace TextMachine

open Behaviour

/-! ## Registers that make no difference -/

namespace Store

variable {st : Store} {r q : Reg} {text : List Char}

theorem write_update (h : q ≠ r) (s : Symbol) :
    Store.write (Function.update st r text) s q = Function.update (st.write s q) r text := by
  rw [write, Function.update_of_ne h, Function.update_comm h.symm]
  rfl

theorem drop_update (h : q ≠ r) :
    Store.drop (Function.update st r text) q = Function.update (st.drop q) r text := by
  rw [drop, Function.update_of_ne h, Function.update_comm h.symm]
  rfl

theorem first?_update (h : q ≠ r) : Store.first? (Function.update st r text) q = st.first? q := by
  rw [first?, Function.update_of_ne h]
  rfl

/-- Dropping a symbol of a register whose contents are known. -/
theorem drop_update_self (st : Store) (r : Reg) (c : Char) (cs : List Char) :
    Store.drop (Function.update st r (c :: cs)) r = Function.update st r cs := by
  rw [drop, Function.update_self, Function.update_idem, List.tail_cons]

end Store

/-- What a behaviour does is the same whatever a register holds, and leaves the register alone. -/
structure Behaviour.Ignores {ε : Type} (r : Reg) (b : Behaviour ε) : Prop where
  update : ∀ {st : Store} {e : ε} {st' : Store}, b st e st' → ∀ text,
    b (Function.update st r text) e (Function.update st' r text)

namespace Behaviour.Ignores

variable {ε δ : Type} {r : Reg}

theorem stay (e : ε) : (Behaviour.stay e).Ignores r where
  update := by
    rintro st _ _ ⟨rfl, rfl⟩ text
    exact ⟨rfl, rfl⟩

theorem map {b : Behaviour ε} (h : b.Ignores r) (f : ε → δ) : (b.map f).Ignores r where
  update := by
    rintro st _ st' ⟨e, hrun, rfl⟩ text
    exact ⟨e, h.update hrun text, rfl⟩

theorem andThen {n : Nat} {first second : Behaviour (Ending n)} (hfirst : first.Ignores r)
    (hsecond : second.Ignores r) : (first.andThen second).Ignores r where
  update := by
    rintro st e st' (⟨mid, hrun, hrest⟩ | ⟨hne, hrun⟩) text
    · exact .inl ⟨_, hfirst.update hrun text, hsecond.update hrest text⟩
    · exact .inr ⟨hne, hfirst.update hrun text⟩

theorem dispatch {q : Reg} {empty one hash : Behaviour ε} (hq : q ≠ r) (hempty : empty.Ignores r)
    (hone : one.Ignores r) (hhash : hash.Ignores r) :
    (Behaviour.dispatch q empty one hash).Ignores r where
  update := by
    intro st e st' hrun text
    have hfirst : Store.first? (Function.update st r text) q = st.first? q :=
      Store.first?_update hq
    rcases h : st.first? q with _ | _ | _
    · rw [dispatch_of_none h] at hrun
      rw [dispatch_of_none (hfirst.trans h)]
      exact hempty.update hrun text
    · rw [dispatch_of_one h] at hrun
      rw [dispatch_of_one (hfirst.trans h), Store.drop_update hq]
      exact hone.update hrun text
    · rw [dispatch_of_hash h] at hrun
      rw [dispatch_of_hash (hfirst.trans h), Store.drop_update hq]
      exact hhash.update hrun text

theorem repeats {pass : Behaviour (Option ε)} (h : pass.Ignores r) :
    (Repeats pass).Ignores r where
  update := by
    intro st e st' hrun text
    induction hrun with
    | leave hpass => exact .leave (h.update hpass text)
    | again hpass _ ih => exact .again (h.update hpass text) ih

end Behaviour.Ignores

namespace Structured

/-- A program neither writes to a register nor dispatches on it. -/
def Avoids {n : Nat} (r : Reg) (temp : Nat) : Structured n → Prop
  | write _ q => q ≠ r
  | comment _ => True
  | nop => True
  | operands _ => True
  | seq p q => p.Avoids r temp ∧ q.Avoids r temp
  | restart _ => True
  | exit _ => True
  | cases q empty one hash =>
    q ≠ r ∧ empty.Avoids r temp ∧ one.Avoids r temp ∧ hash.Avoids r temp
  | block body => body.Avoids r temp
  | loopOn q one hash => q ≠ r ∧ one.Avoids r temp ∧ hash.Avoids r temp
  | repeatOn q one hash => q ≠ r ∧ one.Avoids r temp ∧ hash.Avoids r temp
  | whileNonempty q body => q ≠ r ∧ body.Avoids r temp
  | withTemp body => (body ⟨temp⟩).Avoids r (temp + 1)

/-- A register that a program avoids makes no difference to it. -/
theorem ignores_runs {n : Nat} {r : Reg} {temp : Nat} (p : Structured n) (h : p.Avoids r temp) :
    (p.Runs temp).Ignores r := by
  induction p generalizing temp with
  | write symbol q =>
    constructor
    rintro st _ _ ⟨rfl, rfl⟩ text
    exact ⟨rfl, (Store.write_update h symbol).symm⟩
  | comment text => exact .stay _
  | nop => exact .stay _
  | operands regs => exact .stay _
  | seq p q ihp ihq => exact (ihp h.1).andThen (ihq h.2)
  | restart k => exact .stay _
  | exit k => exact .stay _
  | cases q empty one hash ihe iho ihh =>
    exact .dispatch h.1 (ihe h.2.1) (iho h.2.2.1) (ihh h.2.2.2)
  | block body ih => exact .repeats ((ih h).map _)
  | loopOn q one hash iho ihh =>
    exact .repeats (.dispatch h.1 (.stay _) ((iho h.2.1).map _) ((ihh h.2.2).map _))
  | repeatOn q one hash iho ihh =>
    exact .repeats (.dispatch h.1 (.stay _) ((iho h.2.1).map _) ((ihh h.2.2).map _))
  | whileNonempty q body ih =>
    exact .repeats (.dispatch h.1 (.stay _) ((ih h.2).map _) ((ih h.2).map _))
  | withTemp body ih => exact ih ⟨temp⟩ h

/-! ## Folds -/

/-- From every register file a whole program comes to its end, and has the given effect on what the
registers hold. -/
def HasEffect (p : Structured 0) (base : Nat) (effect : Store → Store) : Prop :=
  ∀ rs : Registers, p.Terminates base rs.contents (effect rs.contents)

/-- Code that is loaded anywhere turns register files into register files. -/
theorem exists_registers_of_runs {n : Nat} {place : Label → Nat} {ops : List Op}
    {p : Structured n} {temp counter pc : Nat} {scopes : Fin n → Scope}
    (hload : Loaded place ops pc (p.code temp scopes counter)) {rs : Registers} {e : Ending n}
    {st : Store} (h : p.Runs temp rs.contents e st) : ∃ rs' : Registers, rs'.contents = st := by
  obtain ⟨m, -, hreach⟩ := (implements_runs p hload).reaches h
  obtain ⟨d, hd⟩ := Config.exists_state_of_after? (c := { registers := rs, pc }) hreach
  exact ⟨d.registers, congrArg State.store hd⟩

/-- Passes that make no use of a register and lead to the next pass, with the given effect on
register files. -/
structure PassesWith {n : Nat} (r : Reg) (effect : Store → Store)
    (pass : Behaviour (Option (Ending n))) : Prop where
  ignores : pass.Ignores r
  runs : ∀ rs : Registers, pass rs.contents none (effect rs.contents)
  registers : ∀ rs : Registers, ∃ rs' : Registers, rs'.contents = effect rs.contents

/-- Wherever its code is loaded, a body with an effect makes passes with that effect. -/
theorem HasEffect.passesWith {place : Label → Nat} {ops : List Op} {p : Structured 0}
    {base counter pc : Nat} {scopes : Fin 0 → Scope} {r : Reg} {effect : Store → Store}
    (heffect : p.HasEffect base effect) (havoids : p.Avoids r (max base 1))
    (hload : Loaded place ops pc (p.code (max base 1) scopes counter)) :
    PassesWith r effect ((p.Runs (max base 1)).map Ending.ofRepeatedBody) where
  ignores := (ignores_runs p havoids).map _
  runs rs := ⟨.finish, heffect rs, rfl⟩
  registers rs := exists_registers_of_runs hload (heffect rs)

/-- A pass finds its register shortened, which makes no difference to it. -/
theorem PassesWith.next {n : Nat} {r : Reg} {effect : Store → Store}
    {pass : Behaviour (Option (Ending n))} (h : PassesWith r effect pass) (rs : Registers)
    (text : List Char) : ∃ rs' : Registers, rs'.contents = effect rs.contents ∧
      pass (Function.update rs.contents r text) none (Function.update rs'.contents r text) := by
  obtain ⟨rs', hnext⟩ := h.registers rs
  refine ⟨rs', hnext, ?_⟩
  rw [hnext]
  exact h.ignores.update (h.runs rs) text

/-- Passes that make no use of the register of their loop make a fold over its contents. -/
theorem repeats_foldl {n : Nat} {r : Reg} {onOne onHash : Store → Store}
    {one hash : Behaviour (Option (Ending n))} (hone : PassesWith r onOne one)
    (hhash : PassesWith r onHash hash) (text : List Char) (rs : Registers) :
    Repeats (dispatch r (stay (some .finish)) one hash) (Function.update rs.contents r text)
      .finish (Function.update
        (text.foldl (fun st c => if c = '1' then onOne st else onHash st) rs.contents) r []) := by
  induction text generalizing rs with
  | nil => exact repeats_of_eq_nil (Function.update_self r [] rs.contents)
  | cons c cs ih =>
    have hfirst : Store.first? (Function.update rs.contents r (c :: cs)) r = some (.ofChar c) :=
      Store.first?_of_eq_cons (Function.update_self r (c :: cs) rs.contents)
    rw [List.foldl_cons]
    by_cases hc : c = '1'
    · rw [Symbol.ofChar, if_pos hc] at hfirst
      obtain ⟨rs', hnext, hpass⟩ := hone.next rs cs
      rw [if_pos hc, ← hnext]
      refine .again ?_ (ih rs')
      rwa [dispatch_of_one hfirst, Store.drop_update_self]
    · rw [Symbol.ofChar, if_neg hc] at hfirst
      obtain ⟨rs', hnext, hpass⟩ := hhash.next rs cs
      rw [if_neg hc, ← hnext]
      refine .again ?_ (ih rs')
      rwa [dispatch_of_hash hfirst, Store.drop_update_self]

section Loops

variable {base : Nat} {r : Reg} {finished : List Instruction} {loaded : Program}

theorem haltsProperly_repeatOn {one hash : Structured 0} {onOne onHash : Store → Store}
    (hone : one.Avoids r (max base 1)) (hhash : hash.Avoids r (max base 1))
    (honOne : one.HasEffect base onOne) (honHash : hash.HasEffect base onHash)
    (hcompile : (repeatOn r one hash).compile base = .ok finished)
    (hresolve : resolve finished = .ok loaded) (rs : Registers) :
    HaltsProperly loaded.ops rs (Function.update
      ((rs.contents r).foldl (fun st c => if c = '1' then onOne st else onHash st) rs.contents)
      r []) := by
  apply haltsProperly_of_terminates hcompile hresolve
  obtain ⟨-, rfl, -⟩ := compile_eq_ok_iff.1 hcompile
  have hload := (loaded_of_resolve hresolve).loopCode
  have hfold := repeats_foldl (honOne.passesWith hone hload.one)
    (honHash.passesWith hhash hload.hash) (rs.contents r) rs
  rwa [Function.update_eq_self] at hfold

theorem haltsProperly_whileNonempty {body : Structured 0} {effect : Store → Store}
    (hbody : body.Avoids r (max base 1)) (heffect : body.HasEffect base effect)
    (hcompile : (whileNonempty r body).compile base = .ok finished)
    (hresolve : resolve finished = .ok loaded) (rs : Registers) :
    HaltsProperly loaded.ops rs
      (Function.update (effect^[(rs.contents r).length] rs.contents) r []) := by
  apply haltsProperly_of_terminates hcompile hresolve
  obtain ⟨-, rfl, -⟩ := compile_eq_ok_iff.1 hcompile
  have hpasses := heffect.passesWith hbody (loaded_of_resolve hresolve).whileCode.body
  have hfold := repeats_foldl hpasses hpasses (rs.contents r) rs
  -- both symbols make the same pass, so that only their number counts
  simp only [ite_self] at hfold
  rwa [Function.update_eq_self, List.foldl_const] at hfold

end Loops

end Structured

open Structured

/-- **Loops are folds.** Take a loop over a register whose bodies neither write to the register nor
dispatch on it, have no way out, and come to their end from every register file. Its program halts
properly with the register empty, and the other registers hold what the effects of the bodies make
of them, one after another for the symbols that the register held, from first to last. A loop that
only drops the symbols applies the effect of its body as many times as there were symbols. -/
theorem loops_are_folds {base : Nat} {r : Reg} {finished : List Instruction} {loaded : Program} :
    (∀ {one hash : Structured 0} {onOne onHash : Store → Store},
      one.Avoids r (max base 1) → hash.Avoids r (max base 1) →
      one.HasEffect base onOne → hash.HasEffect base onHash →
      (repeatOn r one hash).compile base = .ok finished → resolve finished = .ok loaded →
      ∀ rs : Registers, HaltsProperly loaded.ops rs (Function.update
        ((rs.contents r).foldl (fun st c => if c = '1' then onOne st else onHash st) rs.contents)
        r [])) ∧
    (∀ {body : Structured 0} {effect : Store → Store},
      body.Avoids r (max base 1) → body.HasEffect base effect →
      (whileNonempty r body).compile base = .ok finished → resolve finished = .ok loaded →
      ∀ rs : Registers, HaltsProperly loaded.ops rs
        (Function.update (effect^[(rs.contents r).length] rs.contents) r [])) :=
  ⟨haltsProperly_repeatOn, haltsProperly_whileNonempty⟩

/-- Put a symbol into a register in place of what it holds. -/
def replaceBy (s : Symbol) (r : Reg) : Structured 0 :=
  seq (whileNonempty r (operands [])) (write s r)

/-- Keep the last symbol of a register in another one. -/
def keepLast : Structured 0 :=
  repeatOn ⟨1⟩ (replaceBy .one ⟨2⟩) (replaceBy .hash ⟨2⟩)

/-- Count the symbols of a register in another one. -/
def countSymbols : Structured 0 :=
  whileNonempty ⟨1⟩ (write .one ⟨2⟩)

theorem loops_are_folds_keepLast_countSymbols :
    (∃ finished loaded, keepLast.compile 3 = .ok finished ∧ resolve finished = .ok loaded ∧
      ∃ final, HaltsProperly loaded.ops (.ofList [(⟨1⟩, ['1', 'x', '1', '#'])]) final ∧
        final ⟨1⟩ = [] ∧ final ⟨2⟩ = ['#']) ∧
    (∃ finished loaded, countSymbols.compile 3 = .ok finished ∧ resolve finished = .ok loaded ∧
      ∃ final, HaltsProperly loaded.ops (.ofList [(⟨1⟩, ['1', 'x', '1', '#'])]) final ∧
        final ⟨1⟩ = [] ∧ final ⟨2⟩ = ['1', '1', '1', '1']) := by
  -- the loop in the body is a fold in its turn, of passes that do nothing
  have hdrop : PassesWith ⟨2⟩ id
      (((operands [] : Structured 0).Runs 3).map Ending.ofRepeatedBody) :=
    ⟨(Ignores.stay _).map _, fun _ => ⟨.finish, ⟨rfl, rfl⟩, rfl⟩, fun rs => ⟨rs, rfl⟩⟩
  have hreplace : ∀ s, (replaceBy s ⟨2⟩).HasEffect 3
      (fun st => Function.update st ⟨2⟩ [s.toChar]) := by
    intro s rs
    have hloop := repeats_foldl hdrop hdrop (rs.contents ⟨2⟩) rs
    simp only [ite_self, List.foldl_const, Function.iterate_id, Function.update_eq_self] at hloop
    refine runs_seq hloop ⟨rfl, ?_⟩
    rw [Store.write, Function.update_self, Function.update_idem, List.nil_append]
    rfl
  have havoids : ∀ s, (replaceBy s ⟨2⟩).Avoids ⟨1⟩ (max 3 1) := by
    simp [replaceBy, Avoids]
  have hwrite : (write .one ⟨2⟩ : Structured 0).HasEffect 3 (fun st => st.write .one ⟨2⟩) :=
    fun rs => ⟨rfl, rfl⟩
  have hlast : keepLast.compile 3 = .ok (keepLast.code 3 Fin.elim0 0) := by decide +kernel
  have hcount : countSymbols.compile 3 = .ok (countSymbols.code 3 Fin.elim0 0) := by
    decide +kernel
  constructor
  · refine ⟨_, _, hlast, rfl, _, loops_are_folds.1 (havoids .one) (havoids .hash)
      (hreplace .one) (hreplace .hash) hlast rfl _, ?_, ?_⟩
    · rfl
    · decide +kernel
  · refine ⟨_, _, hcount, rfl, _, loops_are_folds.2 (by simp [Avoids]) hwrite hcount rfl _, ?_, ?_⟩
    · rfl
    · decide +kernel

end TextMachine
