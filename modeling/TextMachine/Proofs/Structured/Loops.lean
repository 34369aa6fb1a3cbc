import TextMachine.Proofs.Structured.Basic

/-!
# Loops over a register

A loop over a register consumes it symbol by symbol, so as long as its bodies leave the register
alone it makes one pass for every symbol, in order. `Structured.loopEffect` is what comes of the
passes: the fold of what they do over the contents of the register.
-/

namespace TextMachine

namespace Store

@[simp] theorem drop_self (st : Store) (r : Reg) : st.drop r r = (st r).tail :=
  Function.update_self r _ st

theorem drop_of_ne (st : Store) {r q : Reg} (h : q ≠ r) : st.drop r q = st q :=
  Function.update_of_ne h _ st

end Store

namespace Structured

variable {n temp : Nat} {st mid st' : Store} {e : Ending n}

theorem runs_seq {p q : Structured n} (hp : p.Runs temp st .finish mid)
    (hq : q.Runs temp mid e st') : (seq p q).Runs temp st e st' :=
  .inl ⟨mid, hp, hq⟩

/-! ## One pass -/

section Passes

variable {r : Reg}

/-- An empty register ends a loop. -/
theorem repeats_of_eq_nil {one hash : Behaviour (Option (Ending n))} (h : st r = []) :
    Behaviour.Repeats (.dispatch r (.stay (some .finish)) one hash) st .finish st := by
  apply Behaviour.Repeats.leave
  rw [Behaviour.dispatch_of_none (Store.first?_eq_none_iff.2 h)]
  exact ⟨rfl, rfl⟩

/-- A symbol makes a pass, with the symbol already gone. -/
theorem repeats_of_eq_cons (pass : Symbol → Behaviour (Option (Ending n))) {c : Char}
    {cs : List Char} (h : st r = c :: cs) (hpass : pass (.ofChar c) (st.drop r) none mid)
    (hrest : Behaviour.Repeats (.dispatch r (.stay (some .finish)) (pass .one) (pass .hash))
      mid e st') :
    Behaviour.Repeats (.dispatch r (.stay (some .finish)) (pass .one) (pass .hash)) st e st' := by
  refine Behaviour.Repeats.again ?_ hrest
  have hfirst := Store.first?_of_eq_cons h
  cases hsymbol : Symbol.ofChar c with
  | one =>
    rw [hsymbol] at hfirst hpass
    rwa [Behaviour.dispatch_of_one hfirst]
  | hash =>
    rw [hsymbol] at hfirst hpass
    rwa [Behaviour.dispatch_of_hash hfirst]

end Passes

/-! ## All passes -/

/-- What a loop over `r` does, when `effect` is what its passes do. -/
def loopEffect (r : Reg) (effect : Symbol → Store → Store) (st : Store) : Store :=
  (st r).foldl (fun st c => effect (.ofChar c) (st.drop r)) st

section Folds

variable {r : Reg} {effect : Symbol → Store → Store}

theorem loopEffect_of_eq_nil (h : st r = []) : loopEffect r effect st = st := by
  rw [loopEffect, h, List.foldl_nil]

/-- A pass that leaves the register alone is followed by a loop over the rest. -/
theorem loopEffect_of_eq_cons {c : Char} {cs : List Char} (h : st r = c :: cs)
    (hkeep : effect (.ofChar c) (st.drop r) r = cs) :
    loopEffect r effect st = loopEffect r effect (effect (.ofChar c) (st.drop r)) := by
  rw [loopEffect, h, List.foldl_cons, loopEffect, hkeep]

end Folds

end Structured

end TextMachine
