import TextMachine.Proofs.Machine.Traces
import TextMachine.Proofs.Resolution.RoundTrip
import TextMachine.Proofs.Resolution.Symbolic

/-!
# Where the program counter can go

The jumps of a resolved program lead to its operations or to its end, so while it runs only a
dispatch can take the program counter further. A dispatch moves it by at most three positions: one
of the last two operations can take it one or two positions past the end, and nothing can take it
anywhere else (`Config.step_bounds`). There the run is over, and it has halted improperly.

The invariant of a run is that the program counter lies between the beginning and the end of the
program; the step that breaks it is the last one (`Config.run_bounds`).
-/

namespace TextMachine

/-- Every operation makes sense where it stands. -/
theorem OpsWellFormed.of_getElem? {size here i : Nat} {ops : List Op} {op : Op}
    (h : OpsWellFormed size here ops) (hi : ops[i]? = some op) :
    op.WellFormedAt size (here + i) := by
  induction ops generalizing here i with
  | nil => cases hi
  | cons first rest ih =>
    obtain ⟨hfirst, hrest⟩ := h
    cases i with
    | zero =>
      obtain rfl := Option.some.inj hi
      exact hfirst
    | succ i =>
      have hat := ih hrest hi
      rwa [Nat.add_right_comm, Nat.add_assoc] at hat

theorem dispatchOffset_bounds (symbol : Option Symbol) :
    1 ≤ dispatchOffset symbol ∧ dispatchOffset symbol ≤ 3 := by
  rcases symbol with _ | _ | _ <;> decide

namespace Config

variable {ops : List Op} {c d : Config}

/-- What a step that is made has executed. -/
theorem exists_fetch_of_step? (hstep : c.step? ops.toArray = some d) :
    ∃ op, c.fetch? ops.toArray = some op ∧ d.pc = c.pc + (op.execute c.registers).2 := by
  obtain ⟨op, hfetch, rfl⟩ := Option.map_eq_some_iff.1 hstep
  exact ⟨op, hfetch, rfl⟩

/-- What is fetched is the operation at the program counter. -/
theorem exists_position_of_fetch? {op : Op} (hfetch : c.fetch? ops.toArray = some op) :
    ∃ here : Nat, c.pc = here ∧ ops[here]? = some op := by
  unfold fetch? at hfetch
  split at hfetch
  next hpc =>
    refine ⟨c.pc.toNat, (Int.toNat_of_nonneg hpc).symm, ?_⟩
    rwa [List.getElem?_toArray] at hfetch
  next => cases hfetch

/-- A step stays between the beginning and the end of the program, or it is a dispatch of the last
two operations and goes past the end. -/
theorem step_bounds (hops : OpsWellFormed ops.length 0 ops)
    (hstep : c.step? ops.toArray = some d) :
    (0 ≤ d.pc ∧ d.pc ≤ ops.length) ∨
      (∃ r, c.fetch? ops.toArray = some (.case r)) ∧ (ops.length : Int) ≤ c.pc + 2 ∧
        (d.pc = ops.length + 1 ∨ d.pc = ops.length + 2) := by
  obtain ⟨op, hfetch, hpc⟩ := exists_fetch_of_step? hstep
  obtain ⟨here, hhere, hop⟩ := exists_position_of_fetch? hfetch
  have hlt : here < ops.length := (List.getElem?_eq_some_iff.1 hop).1
  have hwell := hops.of_getElem? hop
  rw [Nat.zero_add] at hwell
  cases op with
  | write s r =>
    have hnext : d.pc = c.pc + 1 := hpc
    left
    omega
  | forward distance =>
    have hnext : d.pc = c.pc + distance := hpc
    have hsize : here + distance ≤ ops.length := hwell.2
    left
    omega
  | backward distance =>
    have hnext : d.pc = c.pc + -(distance : Int) := hpc
    have hback : distance ≤ here := hwell.2.1
    left
    omega
  | case r =>
    have hnext : d.pc = c.pc + dispatchOffset (c.registers.consume r).1 := hpc
    obtain ⟨hone, hthree⟩ := dispatchOffset_bounds (c.registers.consume r).1
    by_cases hend : d.pc ≤ ops.length
    · left
      omega
    · right
      refine ⟨⟨r, hfetch⟩, ?_, ?_⟩
      · omega
      · omega

/-- Past the end of the program a run has halted improperly. -/
theorem runFor_of_length_lt (hpast : (ops.length : Int) < c.pc) (n : Nat) :
    runFor ops.toArray n c = (.improper c.pc, c) := by
  rw [runFor_of_step?_eq_none (step?_eq_none (by omega)), halt, List.size_toArray,
    if_neg (by omega)]

/-- A run that stops without having left the program stands at its end. -/
theorem halt_of_step?_eq_none (hstart : 0 ≤ c.pc) (hend : c.pc ≤ ops.length)
    (hstop : c.step? ops.toArray = none) : c.halt ops.toArray = .proper := by
  have hpc : ¬ c.pc.toNat < ops.length := by
    intro hlt
    rw [step?, fetch?, if_pos hstart, List.getElem?_toArray, List.getElem?_eq_getElem hlt] at hstop
    cases hstop
  rw [halt, List.size_toArray, if_pos (by omega)]

/-- Before `n` steps from `c` are over a run comes to `last` by executing a dispatch that is one of
the last two operations. -/
def LeftByDispatch (ops : List Op) (n : Nat) (c last : Config) : Prop :=
  ∃ k before r, k < n ∧ runFor ops.toArray k c = (.stepLimit, before) ∧
    before.step? ops.toArray = some last ∧ before.fetch? ops.toArray = some (.case r) ∧
      (ops.length : Int) ≤ before.pc + 2

theorem LeftByDispatch.of_step? {n : Nat} {last : Config}
    (hstep : c.step? ops.toArray = some d) (h : LeftByDispatch ops n d last) :
    LeftByDispatch ops (n + 1) c last := by
  obtain ⟨k, before, r, hk, hrun, hlast⟩ := h
  refine ⟨k + 1, before, r, Nat.succ_lt_succ hk, ?_, hlast⟩
  rw [runFor_succ_of_step? hstep, hrun]

/-- A run that starts inside of a program, or at its end, never leaves the positions up to two past
the end, and leaves the program by a dispatch of the last two operations only. -/
theorem run_bounds (hops : OpsWellFormed ops.length 0 ops) (hstart : 0 ≤ c.pc)
    (hend : c.pc ≤ ops.length) (n : Nat) :
    (0 ≤ (runFor ops.toArray n c).2.pc ∧ (runFor ops.toArray n c).2.pc ≤ ops.length + 2) ∧
      ∀ pc, (runFor ops.toArray n c).1 = .improper pc →
        (pc = ops.length + 1 ∨ pc = ops.length + 2) ∧
          LeftByDispatch ops n c (runFor ops.toArray n c).2 := by
  induction n, c using run_induction ops with
  | stop n c hstop =>
    have hrange : 0 ≤ c.pc ∧ c.pc ≤ ops.length + 2 := by omega
    rw [runFor_of_step?_eq_none hstop, halt_of_step?_eq_none hstart hend hstop]
    refine ⟨hrange, ?_⟩
    rintro pc ⟨⟩
  | limit c d hstep =>
    have hrange : 0 ≤ c.pc ∧ c.pc ≤ ops.length + 2 := by omega
    rw [runFor_zero_of_step? hstep]
    refine ⟨hrange, ?_⟩
    rintro pc ⟨⟩
  | step n c d hstep ih =>
    rw [runFor_succ_of_step? hstep]
    rcases step_bounds hops hstep with ⟨hstart', hend'⟩ | ⟨⟨r, hfetch⟩, hlast, hpast⟩
    · obtain ⟨hbounds, himproper⟩ := ih hstart' hend'
      refine ⟨hbounds, fun pc hpc => ?_⟩
      obtain ⟨hposition, hleft⟩ := himproper pc hpc
      exact ⟨hposition, hleft.of_step? hstep⟩
    · -- the run has just left the program, so `c` is where its last step was made
      have hrange : 0 ≤ d.pc ∧ d.pc ≤ ops.length + 2 := by omega
      rw [runFor_of_length_lt (by omega)]
      refine ⟨hrange, ?_⟩
      rintro pc ⟨⟩
      exact ⟨hpast, 0, c, r, Nat.succ_pos n, runFor_zero_of_step? hstep, hstep, hfetch, hlast⟩

end Config

/-- **Resolved programs cannot run wild.** However long a resolved program runs, its program counter
stays between the beginning of the program and two positions past its end. If it halts improperly it
does so one or two positions past the end, and its last step was a dispatch that is one of the last
two operations. A program without such a dispatch never halts improperly. -/
theorem resolved_runs_stay_close {code : List Instruction} {p : Program}
    (h : resolve code = .ok p) (m : Progress) (n : Nat) :
    let start : Config := { m with pc := 0 }
    let run := Config.runFor p.ops.toArray n start
    (0 ≤ run.2.pc ∧ run.2.pc ≤ p.size + 2) ∧
      (∀ pc, run.1 = .improper pc →
        (pc = p.size + 1 ∨ pc = p.size + 2) ∧ Config.LeftByDispatch p.ops n start run.2) ∧
      ((∀ r, .case r ∉ p.ops.drop (p.size - 2)) → ∀ pc, run.1 ≠ .improper pc) := by
  intro start run
  have hops : OpsWellFormed p.ops.length 0 p.ops := (wellFormed_of_resolve h).ops
  obtain ⟨hbounds, himproper⟩ :=
    Config.run_bounds (c := start) hops (Int.le_refl 0) (Int.natCast_nonneg _) n
  refine ⟨hbounds, himproper, ?_⟩
  intro hcase pc hpc
  obtain ⟨-, k, before, r, -, -, -, hfetch, hlast⟩ := himproper pc hpc
  obtain ⟨here, hhere, hop⟩ := Config.exists_position_of_fetch? hfetch
  apply hcase r
  apply List.mem_of_getElem? (i := here - (p.size - 2))
  rw [List.getElem?_drop, Nat.add_sub_of_le, hop]
  show p.ops.length - 2 ≤ here
  omega

/-- A program whose last operation but one is a dispatch. -/
def lateDispatch : List Instruction :=
  [.setLabel ⟨"top"⟩, .write .one ⟨2⟩, .case ⟨1⟩, .jump ⟨"top"⟩]

/-- The dispatch takes the program counter one position past the end when it finds `#`. -/
theorem resolved_runs_stay_close_lateDispatch :
    ∃ p, resolve lateDispatch = .ok p ∧
      let start : Config := { Machine.ofList [(⟨1⟩, ['#'])] with pc := 0 }
      let run := Config.runFor p.ops.toArray 10 start
      run.1 = .improper 4 ∧ Config.LeftByDispatch p.ops 10 start run.2 := by
  have hresolve : resolve lateDispatch =
      .ok { ops := [.write .one ⟨2⟩, .case ⟨1⟩, .backward 2] } := by
    decide +kernel
  have himproper : (Config.runFor #[.write .one ⟨2⟩, .case ⟨1⟩, .backward 2] 10
      { Machine.ofList [(⟨1⟩, ['#'])] with pc := 0 }).1 = .improper 4 := by
    decide +kernel
  refine ⟨_, hresolve, himproper, ?_⟩
  exact ((resolved_runs_stay_close hresolve _ 10).2.1 4 himproper).2

end TextMachine
