import TextMachine.Machine.Basic
import TextMachine.Proofs.Resolution.Positions
import Mathlib.Logic.Function.Basic

/-!
# Traces of the machine

What a run does to the registers depends on them only through their contents. Here the machine is
looked at in this way: a `State` is a position together with what every register holds, and
`State.after?` makes a given number of steps, all of which must be possible.

The step is a function, so a run that ends passes through everything that is reached on its way
(`State.HaltsIn.after`) and ends in one way only (`State.HaltsIn.unique`). `haltsProperly_iff` leads
back to runs of the machine itself, with as many steps as it takes.
-/

namespace TextMachine

/-! ## What the registers hold -/

/-- What every register holds. -/
abbrev Store := Reg → List Char

namespace Store

/-- Append a symbol to a register. -/
def write (st : Store) (s : Symbol) (r : Reg) : Store :=
  Function.update st r (st r ++ [s.toChar])

/-- The first symbol of a register, if there is one. -/
def first? (st : Store) (r : Reg) : Option Symbol :=
  (st r).head?.map .ofChar

/-- Drop the first symbol of a register, if there is one. -/
def drop (st : Store) (r : Reg) : Store :=
  Function.update st r (st r).tail

theorem first?_eq_none_iff {st : Store} {r : Reg} : st.first? r = none ↔ st r = [] := by
  simp [first?]

theorem first?_of_eq_cons {st : Store} {r : Reg} {c : Char} {cs : List Char}
    (h : st r = c :: cs) : st.first? r = some (.ofChar c) := by
  simp [first?, h]

/-- An empty register has nothing to drop. -/
theorem drop_of_first?_eq_none {st : Store} {r : Reg} (h : st.first? r = none) :
    st.drop r = st := by
  rw [drop, first?_eq_none_iff.1 h, List.tail_nil, ← first?_eq_none_iff.1 h,
    Function.update_eq_self]

end Store

namespace Registers

theorem contents_write_eq (rs : Registers) (s : Symbol) (r : Reg) :
    (rs.write s r).contents = Store.write rs.contents s r := by
  funext q
  rw [contents_write, Store.write, Function.update_apply]

theorem consume_eq (rs : Registers) (r : Reg) :
    (rs.consume r).1 = Store.first? rs.contents r ∧
      (rs.consume r).2.contents = Store.drop rs.contents r := by
  cases hr : rs.contents r with
  | nil =>
    have hfirst : Store.first? rs.contents r = none := Store.first?_eq_none_iff.2 hr
    rw [consume_of_contents_eq_nil hr, hfirst, Store.drop_of_first?_eq_none hfirst]
    exact ⟨rfl, rfl⟩
  | cons c cs =>
    obtain ⟨hsymbol, hrest⟩ := consume_of_contents_eq_cons hr
    rw [hsymbol, Store.first?_of_eq_cons hr]
    refine ⟨rfl, funext fun q => ?_⟩
    rw [hrest, Store.drop, hr, List.tail_cons, Function.update_apply]

end Registers

/-! ## States and steps -/

/-- A machine in the middle of a program, as far as its further course depends on it. -/
structure State where
  pc : Int
  store : Store

/-- What counts of a configuration. -/
def Config.state (c : Config) : State :=
  ⟨c.pc, c.registers.contents⟩

/-- The effect of an operation. -/
def Op.act (s : State) : Op → State
  | write symbol r => ⟨s.pc + 1, s.store.write symbol r⟩
  | forward d => ⟨s.pc + d, s.store⟩
  | backward d => ⟨s.pc - d, s.store⟩
  | case r => ⟨s.pc + dispatchOffset (s.store.first? r), s.store.drop r⟩

/-- A jump from where the machine stands takes it to the target and changes nothing else. -/
theorem Op.act_between (here target : Nat) (st : Store) :
    (Op.between here target).act ⟨here, st⟩ = ⟨target, st⟩ := by
  unfold Op.between
  split
  · simp only [Op.act, State.mk.injEq, and_true]
    omega
  · simp only [Op.act, State.mk.injEq, and_true]
    omega

namespace State

/-- The operation to be executed next, unless the program counter has left the program. -/
def fetch? (ops : List Op) (s : State) : Option Op :=
  if 0 ≤ s.pc then ops[s.pc.toNat]? else none

/-- One step of a program; `none` if the program counter has left it. -/
def step? (ops : List Op) (s : State) : Option State :=
  (s.fetch? ops).map (Op.act s)

/-- The given number of steps; `none` if the program counter leaves the program before. -/
def after? (ops : List Op) : Nat → State → Option State
  | 0, s => some s
  | n + 1, s => (s.step? ops).bind (after? ops n)

/-- The program counter leaves the program after exactly `n` steps. -/
def HaltsIn (ops : List Op) (n : Nat) (s : State) : Prop :=
  ∃ t, s.after? ops n = some t ∧ t.step? ops = none

variable {ops : List Op} {s t u : State} {m n : Nat}

theorem step?_of_getElem? {pc : Nat} {st : Store} {op : Op} (h : ops[pc]? = some op) :
    step? ops ⟨pc, st⟩ = some (op.act ⟨pc, st⟩) := by
  simp [step?, fetch?, h]

theorem step?_at_length (st : Store) : step? ops ⟨ops.length, st⟩ = none := by
  simp [step?, fetch?]

@[simp] theorem after?_zero : after? ops 0 s = some s := rfl

theorem after?_succ : after? ops (n + 1) s = (s.step? ops).bind (after? ops n) := rfl

@[simp] theorem after?_one : after? ops 1 s = s.step? ops := by
  rw [after?_succ]
  cases step? ops s <;> rfl

/-- A jump takes one step to its target. -/
theorem after?_one_of_jumpsTo {here target : Nat} (h : JumpsTo ops here target) (st : Store) :
    after? ops 1 ⟨here, st⟩ = some ⟨target, st⟩ := by
  rw [after?_one, step?_of_getElem? h, Op.act_between]

/-- A trace can be cut anywhere. -/
theorem after?_add : after? ops (m + n) s = (after? ops m s).bind (after? ops n) := by
  induction m generalizing s with
  | zero => rw [Nat.zero_add, after?_zero, Option.bind_some]
  | succ m ih =>
    rw [Nat.add_right_comm, after?_succ, after?_succ]
    cases step? ops s with
    | none => rfl
    | some next => exact ih

theorem after?_trans (hst : after? ops m s = some t) (htu : after? ops n t = some u) :
    after? ops (m + n) s = some u := by
  rw [after?_add, hst, Option.bind_some, htu]

/-- A run that ends passes through everything that is reached from its beginning. -/
theorem HaltsIn.after (h : HaltsIn ops n s) (hst : after? ops m s = some t) :
    m ≤ n ∧ HaltsIn ops (n - m) t := by
  obtain ⟨last, hlast, hstop⟩ := h
  -- the shorter of the two traces begins the longer one, and nothing follows a stop
  rcases Nat.le_total m n with hle | hle
  · obtain ⟨k, rfl⟩ := Nat.exists_eq_add_of_le hle
    rw [after?_add, hst, Option.bind_some] at hlast
    refine ⟨hle, last, ?_, hstop⟩
    rw [Nat.add_sub_cancel_left, hlast]
  · obtain ⟨k, rfl⟩ := Nat.exists_eq_add_of_le hle
    rw [after?_add, hlast, Option.bind_some] at hst
    cases k with
    | zero =>
      cases hst
      refine ⟨by omega, t, ?_, hstop⟩
      rw [Nat.add_zero, Nat.sub_self, after?_zero]
    | succ k =>
      rw [after?_succ, hstop] at hst
      cases hst

/-- A run ends in one way only. -/
theorem HaltsIn.unique (hst : after? ops m s = some t) (ht : t.step? ops = none)
    (hsu : after? ops n s = some u) (hu : u.step? ops = none) : m = n ∧ t = u := by
  have hm := (HaltsIn.after ⟨t, hst, ht⟩ hsu).1
  have hn := (HaltsIn.after ⟨u, hsu, hu⟩ hst).1
  obtain rfl : m = n := Nat.le_antisymm hn hm
  rw [hst] at hsu
  exact ⟨rfl, Option.some.inj hsu⟩

end State

/-! ## Back to the machine -/

namespace Config

variable {ops : List Op} {c : Config}

theorem step?_state (ops : List Op) (c : Config) :
    (c.step? ops.toArray).map state = c.state.step? ops := by
  have hfetch : c.fetch? ops.toArray = c.state.fetch? ops := by
    unfold fetch? State.fetch?
    rw [List.getElem?_toArray]
    rfl
  rw [step?, State.step?, hfetch, Option.map_map]
  congr 1
  funext op
  cases op with
  | write symbol r =>
    simp only [Function.comp, state, Op.execute, Op.act, Registers.contents_write_eq]
  | forward d => rfl
  | backward d => rfl
  | case r =>
    obtain ⟨hsymbol, hrest⟩ := c.registers.consume_eq r
    simp only [Function.comp, state, Op.execute, Op.act, hsymbol, hrest]

theorem runFor_of_step?_eq_none (h : c.step? ops.toArray = none) (n : Nat) :
    runFor ops.toArray n c = (c.halt ops.toArray, c) := by
  cases n with
  | zero => simp only [runFor, h]
  | succ n => simp only [runFor, h]

theorem runFor_succ_of_step? {d : Config} (hstep : c.step? ops.toArray = some d) (n : Nat) :
    runFor ops.toArray (n + 1) c = runFor ops.toArray n d := by
  simp only [runFor, hstep]

/-- Out of steps, a run stops where it is. -/
theorem runFor_zero_of_step? {d : Config} (hstep : c.step? ops.toArray = some d) :
    runFor ops.toArray 0 c = (.stepLimit, c) := by
  simp only [runFor, hstep]

theorem halt_ne_stepLimit (ops : Array Op) (c : Config) : c.halt ops ≠ .stepLimit := by
  unfold halt
  split <;> exact nofun

theorem pc_eq_of_halt_eq_proper (h : c.halt ops.toArray = .proper) : c.pc = ops.length := by
  unfold halt at h
  split at h
  next hpc => rwa [List.size_toArray] at hpc
  next => cases h

/-- Induction along a run: it has left the program, or its steps are used up, or it makes a step. -/
@[elab_as_elim]
theorem run_induction (ops : List Op) {motive : Nat → Config → Prop}
    (stop : ∀ n c, c.step? ops.toArray = none → motive n c)
    (limit : ∀ c d, c.step? ops.toArray = some d → motive 0 c)
    (step : ∀ n c d, c.step? ops.toArray = some d → motive n d → motive (n + 1) c) (n : Nat)
    (c : Config) : motive n c := by
  induction n generalizing c with
  | zero =>
    cases hstep : c.step? ops.toArray with
    | none => exact stop 0 c hstep
    | some d => exact limit c d hstep
  | succ n ih =>
    cases hstep : c.step? ops.toArray with
    | none => exact stop (n + 1) c hstep
    | some d => exact step n c d hstep (ih d)

/-- Where a trace leads, the registers are those of a machine. -/
theorem exists_state_of_after? {n : Nat} {t : State} (h : State.after? ops n c.state = some t) :
    ∃ d : Config, d.state = t := by
  induction n generalizing c with
  | zero => exact ⟨c, Option.some.inj h⟩
  | succ n ih =>
    rw [State.after?_succ, ← step?_state, Option.bind_map] at h
    obtain ⟨d, -, hd⟩ := Option.bind_eq_some_iff.1 h
    exact ih hd

/-- A run that is given enough steps ends where its trace ends, and has counted its steps. -/
theorem runFor_of_after? {m n : Nat} {t : State} (h : State.after? ops m c.state = some t)
    (hstop : t.step? ops = none) (hmn : m ≤ n) :
    ∃ c', runFor ops.toArray n c = (c'.halt ops.toArray, c') ∧ c'.state = t ∧
      c'.steps = c.steps + m := by
  induction m generalizing c n with
  | zero =>
    cases h
    rw [← step?_state, Option.map_eq_none_iff] at hstop
    exact ⟨c, runFor_of_step?_eq_none hstop n, rfl, rfl⟩
  | succ m ih =>
    obtain ⟨n, rfl⟩ : ∃ k, n = k + 1 := ⟨n - 1, by omega⟩
    rw [State.after?_succ, ← step?_state, Option.bind_map] at h
    cases hstep : c.step? ops.toArray with
    | none =>
      rw [hstep] at h
      cases h
    | some next =>
      rw [hstep] at h
      obtain ⟨c', hrun, hstate, hsteps⟩ := ih h (Nat.le_of_succ_le_succ hmn)
      refine ⟨c', ?_, hstate, ?_⟩
      · rw [runFor_succ_of_step? hstep, hrun]
      · have hnext := steps_of_step? hstep
        omega

/-- A run that does not use up its steps is a trace to a state without a successor. -/
theorem after?_of_runFor {n : Nat} {halt : Halt} {c' : Config}
    (h : runFor ops.toArray n c = (halt, c')) (hhalt : halt ≠ .stepLimit) :
    halt = c'.halt ops.toArray ∧ c'.state.step? ops = none ∧
      ∃ m, State.after? ops m c.state = some c'.state := by
  induction n, c using run_induction ops with
  | stop n c hstop =>
    rw [runFor_of_step?_eq_none hstop] at h
    cases h
    refine ⟨rfl, ?_, 0, rfl⟩
    rw [← step?_state, hstop, Option.map_none]
  | limit c d hstep =>
    rw [runFor_zero_of_step? hstep] at h
    cases h
    exact absurd rfl hhalt
  | step n c d hstep ih =>
    rw [runFor_succ_of_step? hstep] at h
    obtain ⟨hend, hstop, m, hm⟩ := ih h
    refine ⟨hend, hstop, m + 1, ?_⟩
    rw [State.after?_succ, ← step?_state, hstep, Option.map_some, Option.bind_some, hm]

/-- A run that is given fewer steps than its trace has uses them up. -/
theorem runFor_of_lt_after? {m n : Nat} {t : State} (h : State.after? ops m c.state = some t)
    (hnm : n < m) :
    ∃ c', runFor ops.toArray n c = (.stepLimit, c') ∧ c'.steps = c.steps + n := by
  induction n, c using run_induction ops generalizing m with
  | stop n c hstop =>
    obtain ⟨m, rfl⟩ : ∃ k, m = k + 1 := ⟨m - 1, by omega⟩
    rw [State.after?_succ, ← step?_state, hstop] at h
    cases h
  | limit c d hstep => exact ⟨c, runFor_zero_of_step? hstep, rfl⟩
  | step n c d hstep ih =>
    obtain ⟨m, rfl⟩ : ∃ k, m = k + 1 := ⟨m - 1, by omega⟩
    rw [State.after?_succ, ← step?_state, hstep] at h
    obtain ⟨c', hrun, hsteps⟩ := ih h (Nat.lt_of_succ_lt_succ hnm)
    have hnext := steps_of_step? hstep
    exact ⟨c', (runFor_succ_of_step? hstep n).trans hrun, by omega⟩

/-- A trace of a whole program is a run that halts properly, if it is given enough steps. -/
theorem runFor_of_after?_length {m : Progress} {time n : Nat} {final : Store}
    (h : State.after? ops time ⟨0, m.registers.contents⟩ = some ⟨ops.length, final⟩)
    (hn : time ≤ n) :
    ∃ c, runFor ops.toArray n { m with pc := 0 } = (.proper, c) ∧ c.steps = m.steps + time ∧
      c.registers.contents = final := by
  obtain ⟨c, hrun, hstate, hsteps⟩ := runFor_of_after? (c := { m with pc := 0 }) h
    (State.step?_at_length final) hn
  have hpc : c.pc = ops.length := congrArg State.pc hstate
  refine ⟨c, ?_, hsteps, congrArg State.store hstate⟩
  rw [hrun, halt, List.size_toArray, if_pos hpc]

end Config

/-- Started at the beginning of a program with the given registers, and allowed as many steps as it
takes, the machine halts properly, and its registers then hold `final`. -/
def HaltsProperly (ops : List Op) (rs : Registers) (final : Store) : Prop :=
  ∃ n c, Config.runFor ops.toArray n { registers := rs, pc := 0 } = (.proper, c) ∧
    c.registers.contents = final

/-- To halt properly is to have a trace that leads exactly to the end of the program. -/
theorem haltsProperly_iff {ops : List Op} {rs : Registers} {final : Store} :
    HaltsProperly ops rs final ↔
      ∃ n, State.after? ops n ⟨0, rs.contents⟩ = some ⟨ops.length, final⟩ := by
  constructor
  · rintro ⟨n, c, hrun, rfl⟩
    obtain ⟨hend, -, m, hm⟩ := Config.after?_of_runFor hrun (by decide)
    refine ⟨m, hm.trans ?_⟩
    rw [Config.state, Config.pc_eq_of_halt_eq_proper hend.symm]
  · rintro ⟨n, hn⟩
    obtain ⟨c, hrun, -, hfinal⟩ :=
      Config.runFor_of_after?_length (m := { registers := rs }) hn (Nat.le_refl n)
    exact ⟨n, c, hrun, hfinal⟩

namespace Machine

variable {ops : List Op} {m : Machine} {time : Nat} {final : Store}

/-- A machine runs as long as what is left of its limit allows. -/
theorem exists_run_eq {halt : Halt} {c : Config} {steps : Nat}
    (h : Config.runFor ops.toArray (stepLimit - m.steps) { m with pc := 0 } = (halt, c))
    (hsteps : c.steps = steps) : ∃ m', m.run ops = (halt, m') ∧ m'.steps = steps := by
  refine ⟨(m.run ops).2, Prod.ext ?_ rfl, ?_⟩
  · rw [halt_run, h]
  · rw [progress_run, h, hsteps]

/-- A program whose time is left of the limit halts properly. -/
theorem run_of_after?_le
    (h : State.after? ops time ⟨0, m.registers.contents⟩ = some ⟨ops.length, final⟩)
    (hlimit : m.steps + time ≤ stepLimit) :
    ∃ m', m.run ops = (.proper, m') ∧ m'.steps = m.steps + time := by
  obtain ⟨c, hrun, hsteps, -⟩ :=
    Config.runFor_of_after?_length h (n := stepLimit - m.steps) (by omega)
  exact exists_run_eq hrun hsteps

/-- A program that takes more time than is left of the limit uses it up. -/
theorem run_of_lt_after?
    (h : State.after? ops time ⟨0, m.registers.contents⟩ = some ⟨ops.length, final⟩)
    (hlimit : stepLimit < m.steps + time) :
    ∃ m', m.run ops = (.stepLimit, m') ∧ m'.steps = stepLimit := by
  have hsteps := m.steps_le
  obtain ⟨c, hrun, hcount⟩ := Config.runFor_of_lt_after? (c := { m with pc := 0 }) h
    (n := stepLimit - m.steps) (by omega)
  exact exists_run_eq hrun (hcount.trans (Nat.add_sub_of_le m.steps_le))

end Machine

end TextMachine
