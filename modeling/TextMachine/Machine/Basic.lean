import TextMachine.Machine.Registers

/-!
# The 1# machine

The machine executes operations until its program counter leaves the program. Landing exactly on the
end is the proper way to halt; any other position outside of the program is an improper one. A run
may make only so many steps: `Config.runFor` gives it a number of steps, and `Machine.run` gives it
what is left of the machine's limit, which holds for all of its programs together. No machine has
made more steps than that.
-/

namespace TextMachine

/-- How far a machine has come: its registers, and the number of steps it has made. -/
structure Progress where
  registers : Registers := {}
  steps : Nat := 0

/-- A machine in the middle of a program. -/
structure Config extends Progress where
  /-- The position of the next operation. It may lie outside of the program on either side. -/
  pc : Int := 0

/-- How a run ends. -/
inductive Halt where
  /-- The program counter stands exactly at the end of the program. -/
  | proper
  /-- A jump took the program counter elsewhere outside of the program. -/
  | improper (pc : Int)
  /-- The allowed steps are used up. -/
  | stepLimit
deriving DecidableEq

/-! ## Steps -/

/-- How far a dispatch moves the program counter. -/
def dispatchOffset : Option Symbol → Int
  | none => 1
  | some .one => 2
  | some .hash => 3

namespace Op

/-- The effect of an operation on the registers, and how far it moves the program counter. -/
def execute (rs : Registers) : Op → Registers × Int
  | write s r => (rs.write s r, 1)
  | forward d => (rs, d)
  | backward d => (rs, -d)
  | case r =>
    let (symbol, rs) := rs.consume r
    (rs, dispatchOffset symbol)

end Op

namespace Config

/-- The operation to be executed next, unless the program counter has left the program. -/
def fetch? (ops : Array Op) (c : Config) : Option Op :=
  if 0 ≤ c.pc then ops[c.pc.toNat]? else none

/-- One step of a program; `none` if the program counter has left it. -/
def step? (ops : Array Op) (c : Config) : Option Config :=
  (c.fetch? ops).map fun op =>
    let (registers, offset) := op.execute c.registers
    { registers, steps := c.steps + 1, pc := c.pc + offset }

/-- How a run has ended whose program counter has left the program. -/
def halt (ops : Array Op) (c : Config) : Halt :=
  if c.pc = ops.size then .proper else .improper c.pc

/-! ## Runs -/

/-- Run a program for at most the given number of steps. -/
def runFor (ops : Array Op) : Nat → Config → Halt × Config
  | 0, c =>
    match c.step? ops with
    | none => (c.halt ops, c)
    | some _ => (.stepLimit, c)
  | n + 1, c =>
    match c.step? ops with
    | none => (c.halt ops, c)
    | some c => runFor ops n c

theorem steps_of_step? {ops : Array Op} {c next : Config} (h : c.step? ops = some next) :
    next.steps = c.steps + 1 := by
  obtain ⟨op, -, rfl⟩ := Option.map_eq_some_iff.1 h
  rfl

/-- No run makes more steps than it is given. -/
theorem steps_runFor_le (ops : Array Op) (n : Nat) (c : Config) :
    (runFor ops n c).2.steps ≤ c.steps + n := by
  fun_induction runFor ops n c with
  | case1 => exact Nat.le_refl _
  | case2 => exact Nat.le_refl _
  | case3 n c => exact Nat.le_add_right c.steps (n + 1)
  | case4 n c next hstep ih =>
    have hsteps := steps_of_step? hstep
    omega

end Config

/-- The number of steps a machine makes in its life, over all of its programs. -/
def Machine.stepLimit : Nat := 1000000

/-- A machine between two programs. -/
structure Machine extends Progress where
  steps_le : steps ≤ Machine.stepLimit

namespace Machine

/-- Machines that have come as far are the same. -/
theorem eq_of_progress_eq {m m' : Machine} (h : m.toProgress = m'.toProgress) : m = m' := by
  cases m
  cases m'
  cases h
  rfl

/-- A machine that has made no step yet. -/
def ofList (texts : List (Reg × List Char)) : Machine :=
  { registers := .ofList texts, steps_le := Nat.zero_le _ }

/-- Run a program from its beginning with what is left of the limit. -/
def run (m : Machine) (ops : List Op) : Halt × Machine :=
  let ending := Config.runFor ops.toArray (stepLimit - m.steps) { m with pc := 0 }
  have steps_le : ending.2.steps ≤ stepLimit :=
    calc
      ending.2.steps ≤ m.steps + (stepLimit - m.steps) := Config.steps_runFor_le _ _ _
      _ = stepLimit := Nat.add_sub_of_le m.steps_le
  (ending.1, { ending.2 with steps_le })

theorem halt_run (m : Machine) (ops : List Op) :
    (m.run ops).1 =
      (Config.runFor ops.toArray (stepLimit - m.steps) { m with pc := 0 }).1 := rfl

theorem progress_run (m : Machine) (ops : List Op) :
    (m.run ops).2.toProgress =
      (Config.runFor ops.toArray (stepLimit - m.steps) { m with pc := 0 }).2.toProgress := rfl

/-- Run programs one after another, each on the machine that the previous one left, however that one
ended. -/
def runAll (m : Machine) : List (List Op) → List (Halt × Machine)
  | [] => []
  | ops :: rest =>
    let result := m.run ops
    result :: result.2.runAll rest

end Machine

end TextMachine
