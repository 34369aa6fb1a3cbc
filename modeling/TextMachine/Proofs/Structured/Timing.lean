import TextMachine.Proofs.Structured.Loops
import TextMachine.Proofs.Structured.Simulation

/-!
# How long structured programs run

`Structured.FinishesIn` says of a program that it runs through to its end, and that its code,
wherever it is loaded, takes an exact number of steps to do so. There is one rule for every
construct that the library is made of. Checks and comments take no step, a write takes one, and a
program after another adds its time. A pass of a loop takes three steps beside those of the body:
the dispatch, the jump of its table, and the jump back. A loop that drops the symbols takes a step
more where the symbol is `1`, because there the dispatch ends with a jump, while for `#` it runs
through to the body.

`Structured.finishesIn_repeatOn` makes a loop out of its passes. What the loop does is the fold of
what its bodies do, and all that is asked of its time is that it goes down by a pass with every
symbol. Bodies may ask for something to hold of the registers, which has to survive the loss of a
symbol and the bodies themselves.
-/

namespace TextMachine

namespace Structured

/-- A program runs through from the contents `st` to the contents `st'`, and wherever its code is
loaded, the machine does so in exactly `time` steps. -/
structure FinishesIn {n : Nat} (p : Structured n) (temp : Nat) (st : Store) (time : Nat)
    (st' : Store) : Prop where
  runs : p.Runs temp st .finish st'
  after : ∀ {place : Label → Nat} {ops : List Op} {pc counter : Nat} {scopes : Fin n → Scope},
    Loaded place ops pc (p.code temp scopes counter) →
      State.after? ops time ⟨pc, st⟩ =
        some ⟨(pc + extent (p.code temp scopes counter) : Nat), st'⟩

variable {n temp time : Nat} {st mid st' : Store}

/-! ## Programs without loops -/

theorem finishesIn_write (s : Symbol) (r : Reg) :
    (write s r : Structured n).FinishesIn temp st 1 (st.write s r) where
  runs := ⟨rfl, rfl⟩
  after := by
    rintro place ops pc counter scopes ⟨hwrite, -⟩
    rw [State.after?_one, State.step?_of_getElem? hwrite]
    rfl

theorem finishesIn_operands (regs : List Reg) :
    (operands regs : Structured n).FinishesIn temp st 0 st where
  runs := ⟨rfl, rfl⟩
  after := fun _ => rfl

theorem finishesIn_comment (text : String) :
    (comment text : Structured n).FinishesIn temp st 0 st where
  runs := ⟨rfl, rfl⟩
  after := fun _ => rfl

theorem FinishesIn.seq {p q : Structured n} {later : Nat} (hp : p.FinishesIn temp st time mid)
    (hq : q.FinishesIn temp mid later st') : (seq p q).FinishesIn temp st (time + later) st' where
  runs := runs_seq hp.runs hq.runs
  after := by
    intro place ops pc counter scopes hload
    obtain ⟨hfirst, hsecond⟩ := allAt_append.1 hload
    have hrest := hq.after hsecond
    rw [Nat.add_assoc, ← extent_append] at hrest
    exact State.after?_trans (hp.after hfirst) hrest

theorem FinishesIn.withTemp {body : Reg → Structured n}
    (h : (body ⟨temp⟩).FinishesIn (temp + 1) st time st') :
    (withTemp body).FinishesIn temp st time st' where
  runs := h.runs
  after := h.after

theorem FinishesIn.of_eq {p : Structured n} {time' : Nat} (h : p.FinishesIn temp st time mid)
    (htime : time = time') (hst : mid = st') : p.FinishesIn temp st time' st' :=
  htime ▸ hst ▸ h

/-! ## One pass -/

section Passes

variable {r : Reg} {c : Char} {cs : List Char} {later : Nat}

/-- An empty register takes the three steps out of the loop. -/
theorem finishesIn_repeatOn_of_eq_nil {one hash : Structured n} (h : st r = []) :
    (repeatOn r one hash).FinishesIn temp st 3 st where
  runs := repeats_of_eq_nil h
  after := by
    intro place ops pc counter scopes hload
    have hloop := hload.loopCode
    have hentry := hloop.cases.after?_of_none (Store.first?_eq_none_iff.2 h)
    have hexit := State.after?_one_of_jumpsTo (hloop.exit.of_eq rfl hloop.finish) st
    have hpast : pc + 10 + extent (one.code temp scopes (counter + 6)) +
        extent (hash.code temp scopes (counter + 6 + one.labels temp)) =
          pc + extent ((repeatOn r one hash).code temp scopes counter) := by
      rw [code, extent_loopCode]
      omega
    rw [hpast] at hexit
    exact State.after?_trans hentry hexit

/-- A symbol takes a pass: two steps to the body for it, the body, and the step back. -/
theorem finishesIn_repeatOn_of_eq_cons {body : Symbol → Structured n} (h : st r = c :: cs)
    (hbody : (body (.ofChar c)).FinishesIn temp (st.drop r) time mid)
    (hrest : (repeatOn r (body .one) (body .hash)).FinishesIn temp mid later st') :
    (repeatOn r (body .one) (body .hash)).FinishesIn temp st (2 + time + 1 + later) st' where
  runs := repeats_of_eq_cons (fun s => ((body s).Runs temp).map Ending.ofRepeatedBody) h
    ⟨.finish, hbody.runs, rfl⟩ hrest.runs
  after := by
    intro place ops pc counter scopes hload
    have hloop := hload.loopCode
    have hfirst := Store.first?_of_eq_cons h
    obtain ⟨entry, counter', hentry, hloaded, hback⟩ : ∃ entry counter' : Nat,
        State.after? ops 2 ⟨pc, st⟩ = some ⟨entry, st.drop r⟩ ∧
          Loaded place ops entry ((body (.ofChar c)).code temp scopes counter') ∧
            JumpsTo ops (entry + extent ((body (.ofChar c)).code temp scopes counter')) pc := by
      cases hsymbol : Symbol.ofChar c with
      | one =>
        rw [hsymbol] at hfirst
        exact ⟨_, _, hloop.cases.after?_of_one hfirst, hloop.one,
          hloop.oneBack.of_eq rfl hloop.start⟩
      | hash =>
        rw [hsymbol] at hfirst
        refine ⟨_, _, ?_, hloop.hash, hloop.hashBack.of_eq rfl hloop.start⟩
        rw [hloop.cases.after?_of_hash hfirst, extent_append]
        congr 2
        simp only [extent_cons, extent_nil, Instruction.width_jump]
        omega
    have hbodyRun := State.after?_trans hentry (hbody.after hloaded)
    have hpass := State.after?_trans hbodyRun (State.after?_one_of_jumpsTo hback mid)
    exact State.after?_trans hpass (hrest.after hload)

theorem finishesIn_whileNonempty_of_eq_nil {body : Structured n} (h : st r = []) :
    (whileNonempty r body).FinishesIn temp st 3 st where
  runs := repeats_of_eq_nil h
  after := by
    intro place ops pc counter scopes hload
    have hloop := hload.whileCode
    have hentry := hloop.cases.after?_of_none (Store.first?_eq_none_iff.2 h)
    have hexit := State.after?_one_of_jumpsTo (hloop.exit.of_eq rfl hloop.finish) st
    have hpast : pc + 9 + extent (body.code temp scopes (counter + 6)) =
        pc + extent ((whileNonempty r body).code temp scopes counter) := by
      rw [code, extent_whileCode]
      omega
    rw [hpast] at hexit
    exact State.after?_trans hentry hexit

/-- How many steps it takes to drop a symbol and come to the body of the loop. -/
def dropTime : Symbol → Nat
  | .one => 3
  | .hash => 2

theorem finishesIn_whileNonempty_of_eq_cons {body : Structured n} (h : st r = c :: cs)
    (hbody : body.FinishesIn temp (st.drop r) time mid)
    (hrest : (whileNonempty r body).FinishesIn temp mid later st') :
    (whileNonempty r body).FinishesIn temp st (dropTime (.ofChar c) + time + 1 + later) st' where
  runs := repeats_of_eq_cons (fun _ => (body.Runs temp).map Ending.ofRepeatedBody) h
    ⟨.finish, hbody.runs, rfl⟩ hrest.runs
  after := by
    intro place ops pc counter scopes hload
    have hloop := hload.whileCode
    have hfirst := Store.first?_of_eq_cons h
    have hentry : State.after? ops (dropTime (.ofChar c)) ⟨pc, st⟩ =
        some ⟨(pc + 8 : Nat), st.drop r⟩ := by
      cases hsymbol : Symbol.ofChar c with
      | one =>
        -- the empty body for `1` is followed by a jump, over the empty body for `#`
        rw [hsymbol] at hfirst
        have hjump := State.after?_one_of_jumpsTo
          (hloop.cases.fromOne.of_eq rfl hloop.cases.post) (st.drop r)
        exact State.after?_trans (hloop.cases.after?_of_one hfirst) hjump
      | hash =>
        rw [hsymbol] at hfirst
        exact hloop.cases.after?_of_hash hfirst
    have hbodyRun := State.after?_trans hentry (hbody.after hloop.body)
    have hback := State.after?_one_of_jumpsTo (hloop.back.of_eq rfl hloop.start) mid
    exact State.after?_trans (State.after?_trans hbodyRun hback) (hrest.after hload)

end Passes

/-! ## All passes -/

/-- A loop whose bodies leave its register alone is a fold. `total` is the time that the whole loop
takes, and `time` what a body takes. -/
theorem finishesIn_repeatOn {r : Reg} {effect : Symbol → Store → Store}
    (body : Symbol → Structured n) (Inv : Store → Prop) (time : Symbol → Store → Nat)
    (total : Store → Nat)
    (hbody : ∀ s st, Inv st → (body s).FinishesIn temp st (time s st) (effect s st))
    (hkeep : ∀ s st, Inv st → effect s st r = st r) (hinv : ∀ s st, Inv st → Inv (effect s st))
    (hdrop : ∀ st, Inv st → Inv (st.drop r))
    (hnil : ∀ st, st r = [] → total st = 3)
    (hcons : ∀ st c cs, st r = c :: cs → total st =
      2 + time (.ofChar c) (st.drop r) + 1 + total (effect (.ofChar c) (st.drop r)))
    (hst : Inv st) :
    (repeatOn r (body .one) (body .hash)).FinishesIn temp st (total st)
      (loopEffect r effect st) := by
  induction hcontents : st r generalizing st with
  | nil =>
    rw [hnil st hcontents, loopEffect_of_eq_nil hcontents]
    exact finishesIn_repeatOn_of_eq_nil hcontents
  | cons c cs ih =>
    have hdropped := hdrop st hst
    have hrest : effect (.ofChar c) (st.drop r) r = cs := by
      rw [hkeep _ _ hdropped, Store.drop_self, hcontents, List.tail_cons]
    rw [hcons st c cs hcontents, loopEffect_of_eq_cons hcontents hrest]
    exact finishesIn_repeatOn_of_eq_cons hcontents (hbody _ _ hdropped)
      (ih (hinv _ _ hdropped) hrest)

/-! ## Whole programs -/

/-- The program of a structured program that finishes runs from its beginning exactly to its end. -/
theorem FinishesIn.after?_of_compile {p : Structured 0} {base : Nat} {finished : List Instruction}
    {loaded : Program} (h : p.FinishesIn (max base 1) st time st')
    (hcompile : p.compile base = .ok finished) (hresolve : resolve finished = .ok loaded) :
    State.after? loaded.ops time ⟨0, st⟩ = some ⟨loaded.ops.length, st'⟩ := by
  obtain ⟨-, rfl, -⟩ := compile_eq_ok_iff.1 hcompile
  have hafter := h.after (loaded_of_resolve hresolve)
  rwa [Nat.zero_add, ← length_ops_of_resolve hresolve] at hafter

end Structured

end TextMachine
