import TextMachine.Build.Library
import TextMachine.Proofs.Machine.Traces
import Mathlib.Data.Fin.Tuple.Basic

/-!
# Structured programs

A structured program is what a client of the control structures writes down: writes, dispatches,
blocks and loops, with early exits out of enclosing blocks. `Structured.build` performs it on a
builder, by means of the control structures themselves. `Structured.Runs` says directly what it
means, without code, labels or jumps.

Scopes are counted from the innermost one outwards, so that a program inside `n` scopes can name no
others. Temporaries are handed out in order: a program runs with the registers from `temp` on
unused, and the body of `withTemp` gets the first of them. The library's routines are structured
programs like any other (`Structured.build_call`).
-/

namespace TextMachine

/-- A structured program inside `n` scopes. -/
inductive Structured : Nat → Type where
  | write {n : Nat} (symbol : Symbol) (reg : Reg) : Structured n
  | comment {n : Nat} (text : String) : Structured n
  | nop {n : Nat} : Structured n
  /-- Check the operands of a routine. -/
  | operands {n : Nat} (regs : List Reg) : Structured n
  | seq {n : Nat} (first second : Structured n) : Structured n
  /-- Go back to the beginning of an enclosing scope. -/
  | restart {n : Nat} (scope : Fin n) : Structured n
  /-- Leave an enclosing scope. -/
  | exit {n : Nat} (scope : Fin n) : Structured n
  | cases {n : Nat} (reg : Reg) (empty one hash : Structured n) : Structured n
  | block {n : Nat} (body : Structured (n + 1)) : Structured n
  | loopOn {n : Nat} (reg : Reg) (one hash : Structured (n + 1)) : Structured n
  | repeatOn {n : Nat} (reg : Reg) (one hash : Structured n) : Structured n
  | whileNonempty {n : Nat} (reg : Reg) (body : Structured n) : Structured n
  /-- The body may depend on the register in any way. -/
  | withTemp {n : Nat} (body : Reg → Structured n) : Structured n

/-! ## Meaning -/

/-- How a program inside `n` scopes ends. -/
inductive Ending (n : Nat) where
  /-- It runs through to its end. -/
  | finish
  /-- It asks for an enclosing scope to begin again. -/
  | restart (scope : Fin n)
  /-- It asks for an enclosing scope to be left. -/
  | exit (scope : Fin n)
deriving DecidableEq

namespace Ending

variable {n : Nat}

/-- How a block goes on when its body has ended: `none` stands for once more. The body's end is the
block's end. -/
def ofBlockBody : Ending (n + 1) → Option (Ending n)
  | finish => some finish
  | restart ⟨0, _⟩ => none
  | restart ⟨k + 1, h⟩ => some (restart ⟨k, Nat.lt_of_succ_lt_succ h⟩)
  | exit ⟨0, _⟩ => some finish
  | exit ⟨k + 1, h⟩ => some (exit ⟨k, Nat.lt_of_succ_lt_succ h⟩)

/-- How a loop with a scope of its own goes on when a body has ended. A body that runs through to
its end continues the loop. -/
def ofLoopBody : Ending (n + 1) → Option (Ending n)
  | finish => none
  | e => e.ofBlockBody

/-- How a loop without a scope goes on when a body has ended. -/
def ofRepeatedBody : Ending n → Option (Ending n)
  | finish => none
  | e => some e

/-- The same end, seen from inside one more block. -/
def inside : Ending n → Ending (n + 1)
  | finish => finish
  | restart k => restart k.succ
  | exit k => exit k.succ

theorem ofLoopBody_inside (e : Ending n) : e.inside.ofLoopBody = e.ofRepeatedBody := by
  cases e <;> rfl

end Ending

/-- What a piece of a program can do: from which contents it ends how, and with which contents. -/
abbrev Behaviour (ε : Type) := Store → ε → Store → Prop

namespace Behaviour

variable {ε δ : Type}

/-- End at once. -/
def stay (e : ε) : Behaviour ε :=
  fun st e' st' => e' = e ∧ st' = st

/-- Read the ends of a behaviour in another way. -/
def map (f : ε → δ) (b : Behaviour ε) : Behaviour δ :=
  fun st d st' => ∃ e, b st e st' ∧ d = f e

/-- One behaviour, and the next one if the first runs through. -/
def andThen {n : Nat} (first second : Behaviour (Ending n)) : Behaviour (Ending n) :=
  fun st e st' => (∃ mid, first st .finish mid ∧ second mid e st') ∨ e ≠ .finish ∧ first st e st'

/-- Consume the first symbol of a register and go on by what it was. -/
def dispatch (r : Reg) (empty one hash : Behaviour ε) : Behaviour ε :=
  fun st =>
    match st.first? r with
    | none => empty st
    | some .one => one (st.drop r)
    | some .hash => hash (st.drop r)

/-- Make pass after pass, until one says how to end. -/
inductive Repeats (pass : Behaviour (Option ε)) : Behaviour ε
  | leave {st st' : Store} {e : ε} : pass st (some e) st' → Repeats pass st e st'
  | again {st mid st' : Store} {e : ε} :
      pass st none mid → Repeats pass mid e st' → Repeats pass st e st'

/-! Laws by which the loops are taken apart. -/

section Dispatch

variable {r : Reg} {empty one hash : Behaviour ε} {st : Store}

theorem dispatch_of_none (h : st.first? r = none) : dispatch r empty one hash st = empty st := by
  simp only [dispatch, h]

theorem dispatch_of_one (h : st.first? r = some .one) :
    dispatch r empty one hash st = one (st.drop r) := by
  simp only [dispatch, h]

theorem dispatch_of_hash (h : st.first? r = some .hash) :
    dispatch r empty one hash st = hash (st.drop r) := by
  simp only [dispatch, h]

end Dispatch

theorem map_stay (f : ε → δ) (e : ε) : (stay e).map f = stay (f e) := by
  funext st d st'
  refine propext ⟨?_, ?_⟩
  · rintro ⟨_, ⟨rfl, rfl⟩, rfl⟩
    exact ⟨rfl, rfl⟩
  · rintro ⟨rfl, rfl⟩
    exact ⟨e, ⟨rfl, rfl⟩, rfl⟩

theorem map_map {γ : Type} (f : ε → δ) (g : δ → γ) (b : Behaviour ε) :
    (b.map f).map g = b.map fun e => g (f e) := by
  funext st d st'
  refine propext ⟨?_, ?_⟩
  · rintro ⟨_, ⟨e, he, rfl⟩, rfl⟩
    exact ⟨e, he, rfl⟩
  · rintro ⟨e, he, rfl⟩
    exact ⟨f e, ⟨e, he, rfl⟩, rfl⟩

theorem map_dispatch (f : ε → δ) (r : Reg) (empty one hash : Behaviour ε) :
    (dispatch r empty one hash).map f =
      dispatch r (empty.map f) (one.map f) (hash.map f) := by
  funext st d st'
  rcases h : st.first? r with _ | _ | _
  · simp only [map, dispatch_of_none h]
  · simp only [map, dispatch_of_one h]
  · simp only [map, dispatch_of_hash h]

section Sequences

variable {n : Nat}

theorem stay_finish_andThen (b : Behaviour (Ending n)) : (stay .finish).andThen b = b := by
  funext st e st'
  refine propext ⟨?_, ?_⟩
  · rintro (⟨_, ⟨-, rfl⟩, h⟩ | ⟨hne, rfl, -⟩)
    · exact h
    · exact absurd rfl hne
  · intro h
    exact .inl ⟨st, ⟨rfl, rfl⟩, h⟩

theorem andThen_stay_finish (b : Behaviour (Ending n)) : b.andThen (stay .finish) = b := by
  funext st e st'
  refine propext ⟨?_, ?_⟩
  · rintro (⟨_, hrun, rfl, rfl⟩ | ⟨-, hrun⟩)
    · exact hrun
    · exact hrun
  · intro hrun
    by_cases hfinish : e = .finish
    · subst hfinish
      exact .inl ⟨st', hrun, rfl, rfl⟩
    · exact .inr ⟨hfinish, hrun⟩

theorem stay_andThen_of_ne {e : Ending n} (he : e ≠ .finish) (b : Behaviour (Ending n)) :
    (stay e).andThen b = stay e := by
  funext st d st'
  refine propext ⟨?_, ?_⟩
  · rintro (⟨_, ⟨h, -⟩, -⟩ | ⟨-, h⟩)
    · exact absurd h.symm he
    · exact h
  · rintro ⟨rfl, rfl⟩
    exact .inr ⟨he, rfl, rfl⟩

theorem dispatch_andThen (r : Reg) (empty one hash b : Behaviour (Ending n)) :
    (dispatch r empty one hash).andThen b =
      dispatch r (empty.andThen b) (one.andThen b) (hash.andThen b) := by
  funext st e st'
  rcases h : st.first? r with _ | _ | _
  · simp only [andThen, dispatch_of_none h]
  · simp only [andThen, dispatch_of_one h]
  · simp only [andThen, dispatch_of_hash h]

/-- To restart the innermost block at the end of a body is what a loop does when the body ends. -/
theorem andThen_restart_map (b : Behaviour (Ending (n + 1))) :
    (b.andThen (stay (.restart 0))).map Ending.ofBlockBody = b.map Ending.ofLoopBody := by
  funext st d st'
  refine propext ⟨?_, ?_⟩
  · rintro ⟨e, ⟨mid, hmid, rfl, rfl⟩ | ⟨hne, he⟩, rfl⟩
    · exact ⟨.finish, hmid, rfl⟩
    · refine ⟨e, he, ?_⟩
      cases e with
      | finish => exact absurd rfl hne
      | restart k => rfl
      | exit k => rfl
  · rintro ⟨e, he, rfl⟩
    cases e with
    | finish => exact ⟨.restart 0, .inl ⟨st', he, rfl, rfl⟩, rfl⟩
    | restart k => exact ⟨.restart k, .inr ⟨nofun, he⟩, rfl⟩
    | exit k => exact ⟨.exit k, .inr ⟨nofun, he⟩, rfl⟩

/-- The scope of a loop makes no difference to a body that does not use it. -/
theorem map_inside_map (b : Behaviour (Ending n)) :
    (b.map Ending.inside).map Ending.ofLoopBody = b.map Ending.ofRepeatedBody := by
  rw [map_map]
  exact congrArg (map · b) (funext Ending.ofLoopBody_inside)

end Sequences

end Behaviour

namespace Structured

variable {n : Nat} {σ : Type}

open Behaviour in
/-- What a structured program does, when the registers from `temp` on are free to be temporaries. -/
def Runs {n : Nat} : Structured n → (temp : Nat) → Behaviour (Ending n)
  | write symbol r, _ => fun st e st' => e = .finish ∧ st' = st.write symbol r
  | comment _, _ => stay .finish
  | nop, _ => stay .finish
  | operands _, _ => stay .finish
  | seq p q, temp => (p.Runs temp).andThen (q.Runs temp)
  | restart k, _ => stay (.restart k)
  | exit k, _ => stay (.exit k)
  | cases r empty one hash, temp =>
    dispatch r (empty.Runs temp) (one.Runs temp) (hash.Runs temp)
  | block body, temp => Repeats ((body.Runs temp).map Ending.ofBlockBody)
  | loopOn r one hash, temp =>
    Repeats (dispatch r (stay (some .finish))
      ((one.Runs temp).map Ending.ofLoopBody) ((hash.Runs temp).map Ending.ofLoopBody))
  | repeatOn r one hash, temp =>
    Repeats (dispatch r (stay (some .finish))
      ((one.Runs temp).map Ending.ofRepeatedBody) ((hash.Runs temp).map Ending.ofRepeatedBody))
  | whileNonempty r body, temp =>
    Repeats (dispatch r (stay (some .finish))
      ((body.Runs temp).map Ending.ofRepeatedBody) ((body.Runs temp).map Ending.ofRepeatedBody))
  | withTemp body, temp => (body ⟨temp⟩).Runs (temp + 1)

/-- A whole program, started on `st`, comes to its end with `st'`. Its temporaries start at `base`,
or at 1 for want of a register 0. -/
def Terminates (p : Structured 0) (base : Nat) (st st' : Store) : Prop :=
  p.Runs (max base 1) st .finish st'

/-! ## Building -/

/-- Perform a structured program on a builder, inside the given scopes. -/
def build {n : Nat} : Structured n → (Fin n → Scope) → Build σ Unit
  | write symbol r, _ => Build.write symbol r
  | comment text, _ => Build.comment text
  | nop, _ => Build.nop
  | operands regs, _ => Build.checkOperands regs
  | seq p q, scopes => do
    p.build scopes
    q.build scopes
  | restart k, scopes => Build.restart (scopes k)
  | exit k, scopes => Build.exit (scopes k)
  | cases r empty one hash, scopes =>
    Build.cases r (empty.build scopes) (one.build scopes) (hash.build scopes)
  | block body, scopes => Build.block fun scope => body.build (Fin.cons scope scopes)
  | loopOn r one hash, scopes =>
    Build.loopOn r (fun scope => one.build (Fin.cons scope scopes))
      (fun scope => hash.build (Fin.cons scope scopes))
  | repeatOn r one hash, scopes => Build.repeatOn r (one.build scopes) (hash.build scopes)
  | whileNonempty r body, scopes => Build.whileNonempty r (body.build scopes)
  | withTemp body, scopes => Build.withTemp fun temp => (body temp).build scopes

/-- The finished code of a whole program, built on a new builder. -/
def compile (p : Structured 0) (base : Nat) : Except BuildError (List Instruction) :=
  match (p.build Fin.elim0 : Build Unit Unit).perform (.startingAt base) () with
  | (.ok (), b, _) => .ok b.code.toList
  | (.error e, _, _) => .error e

/-! ## The library -/

/-- Append `source` to `target` and empty `source`. -/
def move (source target : Reg) : Structured n :=
  seq (operands [source, target])
    (repeatOn source (write .one target) (write .hash target))

/-- Append `source` to `target`. -/
def copy (source target : Reg) : Structured n :=
  seq (operands [source, target])
    (withTemp fun temp =>
      seq
        (repeatOn source
          (seq (write .one target) (write .one temp))
          (seq (write .hash target) (write .hash temp)))
        (move temp source))

/-- Empty a register. -/
def clear (r : Reg) : Structured n :=
  seq (operands [r]) (whileNonempty r (operands []))

/-- Exchange two registers. -/
def swap (left right : Reg) : Structured n :=
  seq (operands [left, right])
    (withTemp fun temp => seq (move left temp) (seq (move right left) (move temp right)))

/-- Put a symbol in front of a register. -/
def prepend (s : Symbol) (target : Reg) : Structured n :=
  withTemp fun temp => seq (write s temp) (seq (move target temp) (move temp target))

/-- Put the reverse of `source` in front of `target` and empty `source`. -/
def reverse (source target : Reg) : Structured n :=
  seq (operands [source, target])
    (repeatOn source (prepend .one target) (prepend .hash target))

/-- A routine of the library. -/
def call : Call Reg → Structured n
  | .move source target => move source target
  | .copy source target => copy source target
  | .clear r => clear r
  | .swap left right => swap left right
  | .reverse source target => reverse source target

/-- A routine of the library under a comment that names the call. -/
def annotated (c : Call Reg) : Structured n :=
  seq (comment c.header) (call c)

/-- The structured routines are the library's. -/
theorem build_call (c : Call Reg) (scopes : Fin n → Scope) :
    (call c).build scopes = (Build.call c : Build σ Unit) := by
  cases c <;> rfl

theorem build_annotated (c : Call Reg) (scopes : Fin n → Scope) :
    (annotated c).build scopes = (Build.routine c.routine c.operands : Build σ Unit) := by
  rw [Build.routine, Call.call?_operands]
  show (do Build.comment c.header; (call c).build scopes) = _
  rw [build_call]

end Structured

end TextMachine
