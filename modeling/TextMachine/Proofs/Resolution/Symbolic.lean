import TextMachine.Machine.Basic
import TextMachine.Proofs.Resolution.Positions

/-!
# What a stream means by itself

A stream of instructions can be executed as it stands, without resolving it. A `Walker` is a machine
in the middle of a stream: it skips markers at no cost, follows a jump to the definition of its
label, and counts real instructions to find where a dispatch goes on. The end of the stream is where
it halts properly; a dispatch that would have to count past the end halts it improperly.

Resolving a stream changes nothing about this. `resolve_preserves_meaning` compares the walker with
the machine on the resolved program after every number of steps; `Agrees` is what one step of both
preserves. The two count positions differently, the walker in instructions and the machine in real
ones only, and `extent` leads from one to the other.
-/

namespace TextMachine

/-! ## The symbolic machine -/

/-- The stops of a stream whose first instruction has index `here`: the indices of its real
instructions, and at last that of its end. -/
def stops (here : Nat) : List Instruction → List Nat
  | [] => [here]
  | i :: rest => if i.width = 0 then stops (here + 1) rest else here :: stops (here + 1) rest

/-- The stops of a stream from index `i` on. -/
def stopsFrom (code : List Instruction) (i : Nat) : List Nat :=
  stops i (code.drop i)

/-- Which of the stops after a dispatch it goes on with, counted from zero. -/
def dispatchOrdinal : Option Symbol → Nat
  | none => 0
  | some .one => 1
  | some .hash => 2

/-- A machine in the middle of a stream. -/
structure Walker extends Progress where
  /-- The index of the instruction to go on with, or of the end of the stream; `none` if a dispatch
  has led past the end. -/
  position : Option Nat := some 0

/-- What has become of a run. -/
inductive Status where
  | running
  | proper
  | improper
deriving DecidableEq

namespace Walker

/-- Follow the instruction with index `stop`. Markers are no stops. -/
def follow (code : List Instruction) (w : Walker) (stop : Nat) : Instruction → Option Walker
  | .write s r =>
    some { registers := w.registers.write s r, steps := w.steps + 1, position := some (stop + 1) }
  | .case r =>
    let (symbol, registers) := w.registers.consume r
    some { registers, steps := w.steps + 1
           position := (stopsFrom code (stop + 1))[dispatchOrdinal symbol]? }
  | .jump l =>
    some { w with steps := w.steps + 1, position := code.findIdx? (· = .setLabel l) }
  | .setLabel _ => none
  | .comment _ => none
  | .nop => none

/-- One step of a stream: skip markers and follow the first real instruction; `none` if there is
none. -/
def step? (code : List Instruction) (w : Walker) : Option Walker := do
  let stop ← (stopsFrom code (← w.position)).head?
  w.follow code stop (← code[stop]?)

/-- At most the given number of steps. -/
def after (code : List Instruction) : Nat → Walker → Walker
  | 0, w => w
  | n + 1, w =>
    match w.step? code with
    | none => w
    | some next => after code n next

/-- Whether a walker goes on, and how it has halted if not. -/
def status (code : List Instruction) (w : Walker) : Status :=
  match w.position with
  | none => .improper
  | some _ => if (w.step? code).isSome then .running else .proper

end Walker

/-- What a run of the machine has come to. One that has used up its steps would go on. -/
def Halt.status : Halt → Status
  | proper => .proper
  | improper _ => .improper
  | stepLimit => .running

/-! ## Stops -/

/-- Between two stops of a stream there are as many positions of the program as stops. -/
theorem of_getElem?_stops {before code : List Instruction} {k stop : Nat}
    (h : (stops before.length code)[k]? = some stop) :
    stop ≤ (before ++ code).length ∧
      extent ((before ++ code).take stop) = extent before + k ∧
        (stop = (before ++ code).length ∨
          ∃ i, (before ++ code)[stop]? = some i ∧ i.width = 1) := by
  -- an instruction that has been passed is one of those before, real or not
  induction code generalizing before k with
  | nil =>
    cases k with
    | zero =>
      cases h
      simp
    | succ k => cases h
  | cons i rest ih =>
    have hlength : before.length + 1 = (before ++ [i]).length := by simp
    have hsplit : before ++ i :: rest = (before ++ [i]) ++ rest := by simp
    rw [stops] at h
    split at h
    next hmarker =>
      rw [hlength] at h
      have hrest := ih h
      rw [← hsplit, extent_append, extent_cons, extent_nil, hmarker] at hrest
      simpa using hrest
    next hreal =>
      have hwidth : i.width = 1 := by
        cases i <;> first | rfl | exact absurd rfl hreal
      cases k with
      | zero =>
        cases h
        simp [hwidth]
      | succ k =>
        rw [List.getElem?_cons_succ, hlength] at h
        have hrest := ih h
        rw [← hsplit, extent_append, extent_cons, extent_nil, hwidth] at hrest
        rw [show extent before + (k + 1) = extent before + (1 + 0) + k by omega]
        exact hrest

/-- A stream has a stop for each of its positions, and one for its end. -/
theorem length_stops (here : Nat) (code : List Instruction) :
    (stops here code).length = extent code + 1 := by
  induction code generalizing here with
  | nil => rfl
  | cons i rest ih =>
    rw [stops]
    cases i <;> simp [ih] <;> omega

section Stops

variable {code : List Instruction} {i k stop : Nat}

theorem of_getElem?_stopsFrom (hi : i ≤ code.length) (h : (stopsFrom code i)[k]? = some stop) :
    stop ≤ code.length ∧ extent (code.take stop) = extent (code.take i) + k ∧
      (stop = code.length ∨ ∃ instr, code[stop]? = some instr ∧ instr.width = 1) := by
  have hlength : (code.take i).length = i := List.length_take_of_le hi
  unfold stopsFrom at h
  rw [← hlength] at h
  simpa only [hlength, List.take_append_drop] using of_getElem?_stops h

theorem extent_lt_of_getElem?_stopsFrom (h : (stopsFrom code i)[k]? = none) :
    extent code < extent (code.take i) + k := by
  have hfew := List.getElem?_eq_none_iff.1 h
  have hsplit := extent_eq_take_add_drop code i
  rw [stopsFrom, length_stops] at hfew
  omega

/-- Skipping markers leads to a real instruction or to the end, without changing the position in the
program. -/
theorem head?_stopsFrom (hi : i ≤ code.length) :
    ∃ stop, (stopsFrom code i).head? = some stop ∧
      extent (code.take stop) = extent (code.take i) ∧
        (stop = code.length ∨ ∃ instr, code[stop]? = some instr ∧ instr.width = 1) := by
  cases hstop : (stopsFrom code i).head? with
  | none =>
    rw [List.head?_eq_getElem?] at hstop
    have hlt := extent_lt_of_getElem?_stopsFrom hstop
    have hsplit := extent_eq_take_add_drop code i
    omega
  | some stop =>
    rw [List.head?_eq_getElem?] at hstop
    obtain ⟨-, hextent, hreal⟩ := of_getElem?_stopsFrom hi hstop
    exact ⟨stop, rfl, hextent, hreal⟩

theorem extent_take_succ {instr : Instruction} (h : code[i]? = some instr) :
    extent (code.take (i + 1)) = extent (code.take i) + instr.width := by
  rw [List.take_add_one, h, Option.toList_some, extent_append, extent_cons, extent_nil,
    Nat.add_zero]

end Stops

/-! ## One step -/

namespace Config

variable {ops : List Op} {c : Config} {here : Nat}

theorem step?_of_getElem? {op : Op} (hpc : c.pc = here) (h : ops[here]? = some op) :
    c.step? ops.toArray = some
      { registers := (op.execute c.registers).1
        steps := c.steps + 1
        pc := here + (op.execute c.registers).2 } := by
  have hfetch : c.fetch? ops.toArray = some op := by
    rw [fetch?, hpc, if_pos (Int.natCast_nonneg here), Int.toNat_natCast, List.getElem?_toArray, h]
  rw [step?, hfetch, Option.map_some, hpc]

theorem step?_eq_none (h : (ops.length : Int) ≤ c.pc) : c.step? ops.toArray = none := by
  have hfetch : c.fetch? ops.toArray = none := by
    rw [fetch?, if_pos (by omega), List.getElem?_toArray, List.getElem?_eq_none (by omega)]
  rw [step?, hfetch, Option.map_none]

end Config

theorem Op.execute_between (rs : Registers) (here target : Nat) :
    (Op.between here target).execute rs = (rs, (target : Int) - here) := by
  unfold Op.between
  split
  · show (rs, ((target - here : Nat) : Int)) = (rs, (target : Int) - here)
    congr 1
    omega
  · show (rs, -((here - target : Nat) : Int)) = (rs, (target : Int) - here)
    congr 1
    omega

theorem dispatchOffset_eq (symbol : Option Symbol) :
    dispatchOffset symbol = 1 + dispatchOrdinal symbol := by
  rcases symbol with _ | _ | _ <;> rfl

/-- A walker and a machine are at the same point of their runs. -/
structure Agrees (code : List Instruction) (w : Walker) (c : Config) : Prop where
  progress : w.toProgress = c.toProgress
  /-- Inside the stream the machine stands at the extent of what is behind the walker. -/
  inside : ∀ i, w.position = some i → i ≤ code.length ∧ c.pc = extent (code.take i)
  /-- Outside of it the machine stands past the end of the program. -/
  outside : w.position = none → (extent code : Int) < c.pc

section Steps

variable {code : List Instruction} {p : Program} {w : Walker} {c : Config}

/-- The label of a jump is defined in the stream, at the extent that it stands for. -/
theorem findIdx?_setLabel {l : Label} (h : resolve code = .ok p) (hjump : .jump l ∈ code) :
    ∃ i, code.findIdx? (· = .setLabel l) = some i ∧ i ≤ code.length ∧
      labelPlace code l = extent (code.take i) := by
  obtain ⟨d, hd, hdl⟩ := List.mem_filterMap.1 (mem_definedLabels_of_resolve h hjump)
  have hmem : Instruction.setLabel l ∈ code := by
    cases d <;> cases hdl
    exact hd
  obtain ⟨i, hi⟩ : ∃ i, code.findIdx? (· = .setLabel l) = some i := by
    apply Option.isSome_iff_exists.1
    rw [List.findIdx?_isSome, List.any_eq_true]
    exact ⟨.setLabel l, hmem, decide_eq_true rfl⟩
  obtain ⟨hlt, hlabel, -⟩ := List.findIdx?_eq_some_iff_getElem.1 hi
  have hat : code[i]? = some (.setLabel l) := by
    rw [List.getElem?_eq_getElem hlt, of_decide_eq_true hlabel]
  have hplace : labelPlace code l = 0 + extent (code.take i) :=
    (loaded_of_resolve h).of_getElem? hat
  exact ⟨i, hi, Nat.le_of_lt hlt, hplace.trans (Nat.zero_add _)⟩

/-- Following a real instruction agrees with the operation that the program holds for it. -/
theorem Agrees.follow (h : resolve code = .ok p) (hw : w.toProgress = c.toProgress) {stop : Nat}
    {instr : Instruction} (hstop : code[stop]? = some instr) (hreal : instr.width = 1)
    (hpc : c.pc = extent (code.take stop)) :
    Option.Rel (Agrees code) (w.follow code stop instr) (c.step? p.ops.toArray) := by
  have hload := (loaded_of_resolve h).of_getElem? hstop
  rw [Nat.zero_add] at hload
  have hlt : stop < code.length := (List.getElem?_eq_some_iff.1 hstop).1
  have hnext := extent_take_succ hstop
  rw [hreal] at hnext
  have hregisters : w.registers = c.registers := congrArg Progress.registers hw
  have hsteps : w.steps = c.steps := congrArg Progress.steps hw
  cases instr with
  | write s r =>
    rw [Config.step?_of_getElem? hpc hload, Walker.follow, hregisters, hsteps]
    refine .some ⟨rfl, ?_, nofun⟩
    rintro _ ⟨⟩
    refine ⟨hlt, ?_⟩
    rw [hnext]
    rfl
  | case r =>
    -- the stops after the dispatch are one position apart, so counting stops is counting positions
    rw [Config.step?_of_getElem? hpc hload, Walker.follow, hregisters, hsteps]
    refine .some ⟨rfl, ?_, ?_⟩
    · intro i hi
      have htarget := of_getElem?_stopsFrom (k := dispatchOrdinal (c.registers.consume r).1) hlt hi
      refine ⟨htarget.1, ?_⟩
      show (extent (code.take stop) : Int) + dispatchOffset (c.registers.consume r).1 = _
      rw [dispatchOffset_eq, htarget.2.1, hnext]
      omega
    · intro hnone
      have hpast := extent_lt_of_getElem?_stopsFrom
        (k := dispatchOrdinal (c.registers.consume r).1) hnone
      show (extent code : Int) <
        extent (code.take stop) + dispatchOffset (c.registers.consume r).1
      rw [dispatchOffset_eq]
      omega
  | jump l =>
    obtain ⟨i, hi, hle, hplace⟩ := findIdx?_setLabel h (List.mem_of_getElem? hstop)
    rw [Config.step?_of_getElem? hpc hload, Walker.follow, hregisters, hsteps, Op.execute_between,
      hi]
    refine .some ⟨rfl, ?_, nofun⟩
    rintro _ ⟨⟩
    refine ⟨hle, ?_⟩
    show (extent (code.take stop) : Int) + (labelPlace code l - extent (code.take stop)) = _
    rw [hplace]
    omega
  | setLabel l => cases hreal
  | comment text => cases hreal
  | nop => cases hreal

/-- A walker and a machine that agree make a step together, or stop together. -/
theorem Agrees.step (h : resolve code = .ok p) (hagree : Agrees code w c) :
    Option.Rel (Agrees code) (w.step? code) (c.step? p.ops.toArray) := by
  have hlength := length_ops_of_resolve h
  unfold Walker.step?
  cases hposition : w.position with
  | none =>
    have hpc := hagree.outside hposition
    rw [Config.step?_eq_none (by omega)]
    exact .none
  | some i =>
    obtain ⟨hi, hpc⟩ := hagree.inside i hposition
    obtain ⟨stop, hhead, hextent, hend | ⟨instr, hinstr, hreal⟩⟩ := head?_stopsFrom hi
    · -- nothing real is left, so the machine stands at the end of the program
      rw [hend, List.take_length] at hextent
      rw [Config.step?_eq_none (by omega)]
      simp [hhead, hend]
    · rw [← hextent] at hpc
      simp only [hhead, hinstr, Option.bind_eq_bind, Option.bind_some]
      exact Agrees.follow h hagree.progress hinstr hreal hpc

/-! ## Whole runs -/

theorem Walker.status_of_step?_eq_some {next : Walker} (hstep : w.step? code = some next) :
    w.status code = .running := by
  unfold Walker.status
  cases hposition : w.position with
  | none => simp [Walker.step?, hposition] at hstep
  | some i => simp [hstep]

/-- Where they stop together, they have halted in the same way. -/
theorem Agrees.status_of_step?_eq_none (h : resolve code = .ok p) (hagree : Agrees code w c)
    (hw : w.step? code = none) (hc : c.step? p.ops.toArray = none) :
    w.status code = (c.halt p.ops.toArray).status := by
  have hlength := length_ops_of_resolve h
  cases hposition : w.position with
  | none =>
    have hpc := hagree.outside hposition
    have hhalt : c.halt p.ops.toArray = .improper c.pc := by
      rw [Config.halt, List.size_toArray, if_neg (by omega)]
    rw [hhalt, Walker.status, hposition]
    rfl
  | some i =>
    obtain ⟨-, hpc⟩ := hagree.inside i hposition
    have hsplit := extent_eq_take_add_drop code i
    -- before the end the machine would have an operation to execute
    have hend : p.ops.length ≤ extent (code.take i) := by
      refine Nat.le_of_not_lt fun hlt => ?_
      rw [Config.step?_of_getElem? hpc (List.getElem?_eq_getElem hlt)] at hc
      cases hc
    have hhalt : c.halt p.ops.toArray = .proper := by
      rw [Config.halt, List.size_toArray, if_pos (by omega)]
    rw [hhalt, Walker.status, hposition, hw]
    rfl

theorem Agrees.stop_or_step (h : resolve code = .ok p) (hagree : Agrees code w c) :
    (w.step? code = none ∧ c.step? p.ops.toArray = none ∧
      w.status code = (c.halt p.ops.toArray).status) ∨
    ∃ w' c', w.step? code = some w' ∧ c.step? p.ops.toArray = some c' ∧ Agrees code w' c' := by
  have hstep := hagree.step h
  cases hw : w.step? code with
  | none =>
    cases hc : c.step? p.ops.toArray with
    | none => exact .inl ⟨rfl, rfl, hagree.status_of_step?_eq_none h hw hc⟩
    | some c' =>
      rw [hw, hc] at hstep
      cases hstep
  | some w' =>
    cases hc : c.step? p.ops.toArray with
    | none =>
      rw [hw, hc] at hstep
      cases hstep
    | some c' =>
      rw [hw, hc] at hstep
      exact .inr ⟨w', c', rfl, rfl, Option.rel_some_some.1 hstep⟩

/-- A walker and a machine that agree still do so after any number of steps. -/
theorem Agrees.after (h : resolve code = .ok p) (hagree : Agrees code w c) (n : Nat) :
    Agrees code (w.after code n) (c.runFor p.ops.toArray n).2 ∧
      (w.after code n).status code = (c.runFor p.ops.toArray n).1.status := by
  induction n generalizing w c with
  | zero =>
    rcases hagree.stop_or_step h with ⟨hw, hc, hstatus⟩ | ⟨w', c', hw, hc, -⟩
    · simp only [Walker.after, Config.runFor, hc]
      exact ⟨hagree, hstatus⟩
    · simp only [Walker.after, Config.runFor, hc]
      exact ⟨hagree, Walker.status_of_step?_eq_some hw⟩
  | succ n ih =>
    rcases hagree.stop_or_step h with ⟨hw, hc, hstatus⟩ | ⟨w', c', hw, hc, hnext⟩
    · simp only [Walker.after, Config.runFor, hw, hc]
      exact ⟨hagree, hstatus⟩
    · simp only [Walker.after, Config.runFor, hw, hc]
      exact ih hnext

/-- **Resolution preserves meaning.** After any number of steps, the stream by itself and the
resolved program on the machine have come to the same registers and the same number of steps, go on
or have halted in the same way, and, unless they have halted improperly, stand at the same place. -/
theorem resolve_preserves_meaning (h : resolve code = .ok p) (m : Progress) (n : Nat) :
    let walker := Walker.after code n { m with position := some 0 }
    let run := Config.runFor p.ops.toArray n { m with pc := 0 }
    walker.toProgress = run.2.toProgress ∧ walker.status code = run.1.status ∧
      (run.1.status ≠ .improper →
        ∃ i, walker.position = some i ∧ run.2.pc = extent (code.take i)) := by
  have hstart : Agrees code { m with position := some 0 } { m with pc := 0 } := by
    refine ⟨rfl, ?_, nofun⟩
    rintro _ ⟨⟩
    exact ⟨Nat.zero_le _, rfl⟩
  obtain ⟨hagree, hstatus⟩ := hstart.after h n
  refine ⟨hagree.progress, hstatus, ?_⟩
  intro hproper
  rw [← hstatus] at hproper
  cases hposition : (Walker.after code n { m with position := some 0 }).position with
  | none =>
    rw [Walker.status, hposition] at hproper
    exact absurd rfl hproper
  | some i => exact ⟨i, rfl, (hagree.inside i hposition).2⟩

/-- A loop through both labels of a stream, with markers among the targets of its dispatch. A `#`
leads past the end. -/
def markedLoop : List Instruction :=
  [.comment "loop", .setLabel ⟨"top"⟩, .nop, .case ⟨1⟩, .comment "empty", .jump ⟨"out"⟩, .nop,
    .jump ⟨"top"⟩, .setLabel ⟨"out"⟩, .setLabel ⟨"end"⟩]

theorem resolve_preserves_meaning_markedLoop :
    ∃ p, resolve markedLoop = .ok p ∧ ∀ (m : Progress) (n : Nat),
      (Walker.after markedLoop n { m with position := some 0 }).toProgress =
        (Config.runFor p.ops.toArray n { m with pc := 0 }).2.toProgress := by
  obtain ⟨p, hresolve⟩ : ∃ p, resolve markedLoop = .ok p := ⟨_, rfl⟩
  exact ⟨p, hresolve, fun m n => (resolve_preserves_meaning hresolve m n).1⟩

end Steps

end TextMachine
