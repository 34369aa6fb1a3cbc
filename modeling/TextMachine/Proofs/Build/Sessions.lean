import TextMachine.Build.Library
import TextMachine.Proofs.Build.LabelNames

/-!
# Sessions on a builder

Whatever is built comes down to a few operations on one builder: labels are made and defined,
instructions are appended, temporaries are taken and given back. A *session* is a builder together
with the labels made on it so far, and a *log* is a list of operations to be replayed on one. What
holds of a session after any log is shown here by induction on the log: which labels have been made
(`Session.made_replay`), and which have been defined (`Session.mem_defined_replay`).

`Build.Logs` says that a building step comes down to a log. It has one rule for each primitive, for
`bind` and for each control structure (`Logs.block` and so on), and the routines of the library
follow.
-/

namespace TextMachine

theorem Builder.check_ne_duplicateLabel (b : Builder) (r : Reg) (l : Label) :
    b.check r ≠ .error (.duplicateLabel l) := by
  unfold check
  split
  · simp
  · split <;> simp

/-! ## Operations -/

/-- One operation on a builder. -/
inductive Operation where
  | fresh (hint : String)
  | define (label : Label)
  /-- Append an instruction, unchecked. -/
  | emit (instruction : Instruction)
  | write (symbol : Symbol) (reg : Reg)
  | case (reg : Reg)
  | alloc
  | free (reg : Reg)
deriving DecidableEq

/-- The hints of the labels that the control structures make. -/
def controlHints : List String :=
  ["start", "end", "empty", "one", "hash", "post"]

namespace Operation

/-- The hint of the label that an operation makes, if it makes one. -/
def hint? : Operation → Option String
  | fresh hint => some hint
  | _ => none

theorem hint?_eq_some_iff {op : Operation} {hint : String} :
    op.hint? = some hint ↔ op = .fresh hint := by
  cases op <;> simp [hint?]

/-- Perform an operation and put the label that it makes, if any, behind those made before. -/
def perform : Operation → Build (List Label) Unit
  | fresh hint => do
    let l ← Build.freshLabel hint
    modifyThe (List Label) (· ++ [l])
  | define l => Build.define l
  | emit i => Build.emit i
  | write s r => Build.write s r
  | case r => Build.case r
  | alloc => do let _ ← Build.allocTemp
  | free r => Build.freeTemp r

/-- An operation that the control structures and the routines make use of: a label is made under
one of their hints, and what is appended unchecked neither uses a register nor defines a label. -/
def Usual : Operation → Prop
  | fresh hint => hint ∈ controlHints
  | emit i => i.definedLabel? = none ∧ ∀ s r, i ≠ .write s r ∧ i ≠ .case r
  | _ => True

end Operation

/-! ## Logs -/

/-- A builder in use, and the labels made on it so far. -/
structure Session where
  builder : Builder
  made : List Label := []

namespace Session

/-- Perform an operation: how it ends, and the session afterwards. -/
def step (s : Session) (op : Operation) : Except BuildError Unit × Session :=
  let (result, builder, made) := op.perform.perform s.builder s.made
  (result, { builder, made })

/-- The session after a log; an operation that fails does not end it. -/
def replay (s : Session) (log : List Operation) : Session :=
  log.foldl (fun s op => (s.step op).2) s

@[simp] theorem replay_nil (s : Session) : s.replay [] = s := rfl

@[simp] theorem replay_cons (s : Session) (op : Operation) (log : List Operation) :
    s.replay (op :: log) = (s.step op).2.replay log := rfl

theorem replay_append (s : Session) (first second : List Operation) :
    s.replay (first ++ second) = (s.replay first).replay second :=
  List.foldl_append

/-! ### What one operation does -/

variable (s : Session)

theorem step_define (l : Label) :
    s.step (.define l) =
      if l ∈ s.builder.defined then (.error (.duplicateLabel l), s)
      else
        (.ok (), { s with builder :=
          { s.builder with defined := l :: s.builder.defined }.append (.setLabel l) }) := by
  rw [step, Operation.perform, Build.perform_define]
  by_cases h : l ∈ s.builder.defined
  · rw [if_pos h, if_pos h]
  · rw [if_neg h, if_neg h]

theorem step_write (symbol : Symbol) (r : Reg) :
    s.step (.write symbol r) =
      match s.builder.check r with
      | .ok () => (.ok (), { s with builder := s.builder.append (.write symbol r) })
      | .error e => (.error e, s) := by
  rw [step, Operation.perform, Build.perform_write]
  cases s.builder.check r <;> rfl

theorem step_case (r : Reg) :
    s.step (.case r) =
      match s.builder.check r with
      | .ok () => (.ok (), { s with builder := s.builder.append (.case r) })
      | .error e => (.error e, s) := by
  rw [step, Operation.perform, Build.perform_case]
  cases s.builder.check r <;> rfl

/-- An operation makes a label, or defines one, or has nothing to do with labels: it changes the
stream and the temporaries only, and does not fail because of a label. -/
theorem step_cases (op : Operation) :
    (∃ hint, op = .fresh hint) ∨ (∃ l, op = .define l) ∨
      op.hint? = none ∧ (∀ l, op ≠ .define l) ∧ ∃ result code pool,
        s.step op = (result, { s with builder := { s.builder with code, pool } }) ∧
          ∀ l, result ≠ .error (.duplicateLabel l) := by
  cases op with
  | fresh hint => exact .inl ⟨hint, rfl⟩
  | define l => exact .inr (.inl ⟨l, rfl⟩)
  | emit i => exact .inr (.inr ⟨rfl, nofun, _, _, _, rfl, nofun⟩)
  | alloc => exact .inr (.inr ⟨rfl, nofun, _, _, _, rfl, nofun⟩)
  | free r => exact .inr (.inr ⟨rfl, nofun, _, _, _, rfl, nofun⟩)
  | write symbol r =>
    refine .inr (.inr ⟨rfl, nofun, ?_⟩)
    rw [step_write]
    cases hcheck : s.builder.check r with
    | ok u => exact ⟨_, _, _, rfl, nofun⟩
    | error e => exact ⟨_, _, _, rfl, fun l => hcheck ▸ s.builder.check_ne_duplicateLabel r l⟩
  | case r =>
    refine .inr (.inr ⟨rfl, nofun, ?_⟩)
    rw [step_case]
    cases hcheck : s.builder.check r with
    | ok u => exact ⟨_, _, _, rfl, nofun⟩
    | error e => exact ⟨_, _, _, rfl, fun l => hcheck ▸ s.builder.check_ne_duplicateLabel r l⟩

theorem made_step (op : Operation) :
    (s.step op).2.made =
      s.made ++ (op.hint?.map (Label.numbered · s.builder.nextLabel)).toList := by
  obtain ⟨hint, rfl⟩ | ⟨l, rfl⟩ | ⟨hhint, -, _, _, _, hstep, -⟩ := s.step_cases op
  · rfl
  · rw [step_define]
    split <;> exact (List.append_nil _).symm
  · rw [hstep, hhint]
    exact (List.append_nil _).symm

theorem nextLabel_step (op : Operation) :
    (s.step op).2.builder.nextLabel = s.builder.nextLabel + op.hint?.toList.length := by
  obtain ⟨hint, rfl⟩ | ⟨l, rfl⟩ | ⟨hhint, -, _, _, _, hstep, -⟩ := s.step_cases op
  · rfl
  · rw [step_define]
    split <;> rfl
  · rw [hstep, hhint]
    rfl

theorem mem_defined_step (op : Operation) (l : Label) :
    l ∈ (s.step op).2.builder.defined ↔ l ∈ s.builder.defined ∨ op = .define l := by
  obtain ⟨hint, rfl⟩ | ⟨l', rfl⟩ | ⟨-, hdefine, _, _, _, hstep, -⟩ := s.step_cases op
  · exact (or_iff_left nofun).symm
  · rw [step_define, Operation.define.injEq]
    split
    next hold =>
      refine ⟨.inl, fun h => ?_⟩
      rcases h with h | rfl
      · exact h
      · exact hold
    next => exact List.mem_cons.trans (or_comm.trans (or_congr_right eq_comm))
  · rw [hstep]
    exact (or_iff_left (hdefine l)).symm

/-- The only operation that fails because of a label is the definition of one already defined. -/
theorem step_eq_duplicateLabel_iff {op : Operation} {l : Label} :
    (s.step op).1 = .error (.duplicateLabel l) ↔ op = .define l ∧ l ∈ s.builder.defined := by
  obtain ⟨hint, rfl⟩ | ⟨l', rfl⟩ | ⟨-, hdefine, _, _, _, hstep, hresult⟩ := s.step_cases op
  · exact iff_of_false nofun fun h => nomatch h.1
  · rw [step_define]
    by_cases hold : l' ∈ s.builder.defined
    · simp only [if_pos hold, Except.error.injEq, BuildError.duplicateLabel.injEq,
        Operation.define.injEq]
      exact ⟨fun h => ⟨h, h ▸ hold⟩, And.left⟩
    · simp only [if_neg hold, Operation.define.injEq, reduceCtorEq, false_iff, not_and]
      rintro rfl
      exact hold
  · rw [hstep]
    exact iff_of_false (hresult l) fun h => hdefine l h.1

/-! ### What a log does -/

/-- The labels made by a log have consecutive numbers, each with the hint of its operation. -/
theorem made_replay (log : List Operation) :
    (s.replay log).made = s.made ++
      (log.filterMap Operation.hint?).mapIdx fun k hint =>
        .numbered hint (s.builder.nextLabel + k) := by
  induction log generalizing s with
  | nil => simp
  | cons op log ih =>
    rw [replay_cons, ih, made_step, nextLabel_step]
    cases hhint : op.hint? with
    | none => simp [hhint]
    | some hint => simp [hhint, Nat.add_assoc, Nat.add_comm 1]

/-- The labels defined by a log are those that one of its operations defines. -/
theorem mem_defined_replay (log : List Operation) (l : Label) :
    l ∈ (s.replay log).builder.defined ↔ l ∈ s.builder.defined ∨ .define l ∈ log := by
  induction log generalizing s with
  | nil => simp
  | cons op log ih => rw [replay_cons, ih, mem_defined_step, List.mem_cons, or_assoc, eq_comm]

theorem made_subset_replay (log : List Operation) : s.made ⊆ (s.replay log).made := by
  rw [made_replay]
  exact List.subset_append_left _ _

end Session

/-! ## Builders in use -/

/-- An operation keeps the range of the temporaries, and whether it is guarded. -/
theorem Session.pool_step (s : Session) (op : Operation) :
    (s.step op).2.builder.pool.base = s.builder.pool.base ∧
      (s.step op).2.builder.guarded = s.builder.guarded := by
  cases op with
  | fresh hint => exact ⟨rfl, rfl⟩
  | emit i => exact ⟨rfl, rfl⟩
  | alloc => exact ⟨rfl, rfl⟩
  | free r => exact ⟨rfl, rfl⟩
  | define l =>
    rw [step_define]
    split <;> exact ⟨rfl, rfl⟩
  | write symbol r =>
    rw [step_write]
    split <;> exact ⟨rfl, rfl⟩
  | case r =>
    rw [step_case]
    split <;> exact ⟨rfl, rfl⟩

theorem Session.pool_replay (s : Session) (log : List Operation) :
    (s.replay log).builder.pool.base = s.builder.pool.base ∧
      (s.replay log).builder.guarded = s.builder.guarded := by
  induction log generalizing s with
  | nil => exact ⟨rfl, rfl⟩
  | cons op log ih =>
    obtain ⟨hbase, hguard⟩ := s.pool_step op
    rw [replay_cons, ← hbase, ← hguard]
    exact ih _

namespace Builder

/-- What a log makes of a new builder. -/
def Reachable (b : Builder) : Prop :=
  ∃ base log, b = (Session.replay { builder := .startingAt base } log).builder

/-- A label made on a builder, under a hint that does not end in a digit. -/
def Made (b : Builder) (l : Label) : Prop :=
  ∃ hint counter, ¬ EndsInDigit hint ∧ counter < b.nextLabel ∧ l = .numbered hint counter

variable {b : Builder}

theorem Reachable.guarded (h : b.Reachable) : b.guarded = true := by
  obtain ⟨base, log, rfl⟩ := h
  exact (Session.pool_replay _ log).2

theorem Reachable.base_pos (h : b.Reachable) : 1 ≤ b.pool.base := by
  obtain ⟨base, log, rfl⟩ := h
  rw [(Session.pool_replay _ log).1]
  exact Nat.le_max_right base 1

/-- The labels that are still to be made are new. -/
theorem Made.ne_numbered {l : Label} {counter : Nat} (h : b.Made l) (hle : b.nextLabel ≤ counter)
    (hint : String) : l ≠ .numbered hint counter := by
  obtain ⟨hint', counter', hhint, hlt, rfl⟩ := h
  exact Label.numbered_ne_numbered (Nat.lt_of_lt_of_le hlt hle) hhint

end Builder

/-! ## Logs of building steps -/

/-- What is to hold of a client while it builds: what its state may say about the labels made so
far, and which operations it makes, the usual ones in any case. -/
structure Client (σ : Type) where
  Holds : σ → List Label → Prop
  holds_append : ∀ {n made}, Holds n made → ∀ l, Holds n (made ++ [l])
  Permits : Operation → Prop
  permits_usual : ∀ {op : Operation}, op.Usual → Permits op

theorem Client.holds_step {σ : Type} (C : Client σ) {s : Session} {n : σ} (h : C.Holds n s.made)
    (op : Operation) : C.Holds n (s.step op).2.made := by
  rw [Session.made_step]
  cases op.hint? with
  | none => simpa using h
  | some hint => exact C.holds_append h _

namespace Build

variable {σ α β : Type} (C : Client σ)

/-- On a session and a client's state, `x` does what the operations of a log do, and ends with
`result` and the client's state `n'`. Only made labels are defined, apart from the one with an empty
name, and where `x` fails because of a label defined twice, an operation of the log does. -/
structure Logged (x : Build σ α) (s : Session) (n : σ) (log : List Operation)
    (result : Except BuildError α) (n' : σ) : Prop where
  perform_eq : x.perform s.builder n = (result, (s.replay log).builder, n')
  permits : ∀ op ∈ log, C.Permits op
  defines : ∀ l, .define l ∈ log → l = ⟨""⟩ ∨ l ∈ (s.replay log).made
  holds : C.Holds n' (s.replay log).made
  duplicate : ∀ l, result = .error (.duplicateLabel l) →
    ∃ pre post, log = pre ++ .define l :: post ∧ l ∈ (s.replay pre).builder.defined

/-- Wherever the given labels have been made, `x` comes down to some log. -/
def Logs (known : List Label) (x : Build σ α) : Prop :=
  ∀ (s : Session) (n : σ), C.Holds n s.made → known ⊆ s.made →
    ∃ log result n', Logged C x s n log result n'

variable {C} {known : List Label} {s : Session} {n n' n'' : σ}

namespace Logged

variable {x : Build σ α} {f : α → Build σ β} {log log' : List Operation}

/-- A step that leaves the builder alone and does not fail because of a label. -/
theorem nil {result : Except BuildError α} (hx : x.perform s.builder n = (result, s.builder, n'))
    (hholds : C.Holds n' s.made) (hresult : ∀ l, result ≠ .error (.duplicateLabel l)) :
    Logged C x s n [] result n' where
  perform_eq := hx
  permits := nofun
  defines := nofun
  holds := hholds
  duplicate l h := absurd h (hresult l)

/-- A step that is one operation. -/
theorem operation {op : Operation} {result : Except BuildError α}
    (hx : x.perform s.builder n = (result, (s.step op).2.builder, n')) (hop : C.Permits op)
    (hmade : ∀ l, op = .define l → l = ⟨""⟩ ∨ l ∈ s.made)
    (hholds : C.Holds n' (s.step op).2.made)
    (hresult : ∀ l, result = .error (.duplicateLabel l) →
      op = .define l ∧ l ∈ s.builder.defined) :
    Logged C x s n [op] result n' where
  perform_eq := hx
  permits := List.forall_mem_singleton.2 hop
  defines l hl := by
    obtain rfl := List.mem_singleton.1 hl
    exact (hmade l rfl).imp_right fun h => s.made_subset_replay _ h
  holds := hholds
  duplicate l hl := by
    obtain ⟨rfl, hold⟩ := hresult l hl
    exact ⟨[], [], rfl, hold⟩

/-- Defining a label that has been made. -/
theorem define {l : Label} (hl : l = ⟨""⟩ ∨ l ∈ s.made) (hholds : C.Holds n s.made) :
    Logged C (Build.define l) s n [.define l] (s.step (.define l)).1 n := by
  refine .operation ?_ (C.permits_usual trivial) ?_ (C.holds_step hholds _) fun _ =>
    s.step_eq_duplicateLabel_iff.1
  · rw [perform_define, Session.step_define]
    by_cases hold : l ∈ s.builder.defined
    · rw [if_pos hold, if_pos hold]
    · rw [if_neg hold, if_neg hold]
  · intro l' h
    obtain rfl := Operation.define.inj h
    exact hl

theorem allocTemp (hholds : C.Holds n s.made) :
    Logged C Build.allocTemp s n [.alloc] (.ok s.builder.pool.leastFree) n :=
  .operation (perform_allocTemp s.builder n) (C.permits_usual trivial) nofun
    (C.holds_step hholds _) nofun

/-- One step after another: the logs are put together. -/
theorem bind_ok {a : α} {result : Except BuildError β} (hx : Logged C x s n log (.ok a) n')
    (hf : Logged C (f a) (s.replay log) n' log' result n'') :
    Logged C (x >>= f) s n (log ++ log') result n'' where
  perform_eq := by rw [perform_bind, hx.perform_eq, Session.replay_append, ← hf.perform_eq]
  permits := List.forall_mem_append.2 ⟨hx.permits, hf.permits⟩
  defines l hl := by
    rw [Session.replay_append]
    rcases List.mem_append.1 hl with hl | hl
    · exact (hx.defines l hl).imp_right fun h => Session.made_subset_replay _ _ h
    · exact hf.defines l hl
  holds := by
    rw [Session.replay_append]
    exact hf.holds
  duplicate l hl := by
    obtain ⟨pre, post, rfl, hold⟩ := hf.duplicate l hl
    refine ⟨log ++ pre, post, (List.append_assoc ..).symm, ?_⟩
    rwa [Session.replay_append]

/-- A failure ends the log. -/
theorem bind_error {e : BuildError} (hx : Logged C x s n log (.error e) n') :
    Logged C (x >>= f) s n log (.error e) n' where
  perform_eq := by rw [perform_bind, hx.perform_eq]
  permits := hx.permits
  defines := hx.defines
  holds := hx.holds
  duplicate l hl := by
    obtain rfl := Except.error.inj hl
    exact hx.duplicate l rfl

/-- A step whose failure is held back until a temporary has been given back. -/
theorem thenFree {r : Reg} {result : Except BuildError α} (hx : Logged C x s n log result n') :
    Logged C (do let outcome ← attempt x; freeTemp r; ofExcept outcome) s n (log ++ [.free r])
      result n' where
  perform_eq := by
    rw [perform_bind, perform_attempt, hx.perform_eq, Session.replay_append]
    simp only [perform_bind, perform_freeTemp, perform_ofExcept]
    rfl
  permits := List.forall_mem_append.2
    ⟨hx.permits, List.forall_mem_singleton.2 (C.permits_usual trivial)⟩
  defines l hl := by
    rw [Session.replay_append]
    exact hx.defines l (by simpa using hl)
  holds := by
    rw [Session.replay_append]
    exact hx.holds
  duplicate l hl := by
    obtain ⟨pre, post, rfl, hold⟩ := hx.duplicate l hl
    exact ⟨pre, post ++ [.free r], by simp, hold⟩

end Logged

namespace Logs

variable {x y : Build σ Unit} {f : α → Build σ β}

theorem mono {x : Build σ α} {known' : List Label} (h : Logs C known x) (hsub : known ⊆ known') :
    Logs C known' x :=
  fun s n hholds hknown => h s n hholds (List.Subset.trans hsub hknown)

theorem bind {x : Build σ α} (hx : Logs C known x) (hf : ∀ a, Logs C known (f a)) :
    Logs C known (x >>= f) := by
  intro s n hholds hknown
  obtain ⟨log, result, n', hlog⟩ := hx s n hholds hknown
  cases result with
  | error e => exact ⟨log, .error e, n', hlog.bind_error⟩
  | ok a =>
    have hknown' := List.Subset.trans hknown (s.made_subset_replay log)
    obtain ⟨log', result, n'', hlog'⟩ := hf a (s.replay log) n' hlog.holds hknown'
    exact ⟨log ++ log', result, n'', hlog.bind_ok hlog'⟩

/-- A failure that is caught leaves its log behind. -/
theorem attempt {x : Build σ α} (hx : Logs C known x) : Logs C known (Build.attempt x) := by
  intro s n hholds hknown
  obtain ⟨log, result, n', hlog⟩ := hx s n hholds hknown
  refine ⟨log, .ok result, n', ?_, hlog.permits, hlog.defines, hlog.holds, nofun⟩
  rw [perform_attempt, hlog.perform_eq]

/-! ### Primitives -/

/-- A step that always succeeds and leaves builder and client alone. -/
theorem pure (a : α) : Logs C known (Pure.pure a : Build σ α) :=
  fun s n hholds _ => ⟨[], .ok a, n, .nil (perform_pure s.builder n a) hholds nofun⟩

theorem throw {e : BuildError} (he : ∀ l, e ≠ .duplicateLabel l) :
    Logs C known (throw e : Build σ α) :=
  fun s n hholds _ => ⟨[], .error e, n, .nil (perform_throw s.builder n e) hholds
    fun l h => he l (Except.error.inj h)⟩

theorem emit {i : Instruction} (hi : C.Permits (.emit i)) :
    Logs C known (Build.emit i : Build σ Unit) :=
  fun s n hholds _ => ⟨[.emit i], .ok (), n,
    .operation (perform_emit s.builder n i) hi nofun (C.holds_step hholds _) nofun⟩

theorem jump (l : Label) : Logs C known (Build.jump l : Build σ Unit) :=
  emit (C.permits_usual ⟨rfl, fun _ _ => ⟨nofun, nofun⟩⟩)

theorem comment (text : String) : Logs C known (Build.comment text : Build σ Unit) :=
  emit (C.permits_usual ⟨rfl, fun _ _ => ⟨nofun, nofun⟩⟩)

theorem nop : Logs C known (Build.nop : Build σ Unit) :=
  emit (C.permits_usual ⟨rfl, fun _ _ => ⟨nofun, nofun⟩⟩)

theorem define {l : Label} (hl : l ∈ known) : Logs C known (Build.define l : Build σ Unit) :=
  fun _ _ hholds hknown => ⟨_, _, _, .define (.inr (hknown hl)) hholds⟩

theorem check (r : Reg) : Logs C known (Build.check r : Build σ Unit) :=
  fun s n hholds _ => ⟨[], _, n, .nil (perform_check s.builder n r) hholds
    (s.builder.check_ne_duplicateLabel r)⟩

theorem write (symbol : Symbol) (r : Reg) : Logs C known (Build.write symbol r : Build σ Unit) := by
  intro s n hholds _
  refine ⟨[.write symbol r], (s.step (.write symbol r)).1, n, .operation ?_
    (C.permits_usual trivial) nofun (C.holds_step hholds _) fun _ =>
      s.step_eq_duplicateLabel_iff.1⟩
  rw [perform_write, Session.step_write]
  cases s.builder.check r <;> rfl

theorem case (r : Reg) : Logs C known (Build.case r : Build σ Unit) := by
  intro s n hholds _
  refine ⟨[.case r], (s.step (.case r)).1, n, .operation ?_
    (C.permits_usual trivial) nofun (C.holds_step hholds _) fun _ =>
      s.step_eq_duplicateLabel_iff.1⟩
  rw [perform_case, Session.step_case]
  cases s.builder.check r <;> rfl

theorem allocTemp : Logs C known (Build.allocTemp : Build σ Reg) :=
  fun _ _ hholds _ => ⟨_, _, _, .allocTemp hholds⟩

theorem freeTemp (r : Reg) : Logs C known (Build.freeTemp r : Build σ Unit) :=
  fun s n hholds _ => ⟨[.free r], _, n,
    .operation (perform_freeTemp s.builder n r) (C.permits_usual trivial) nofun
      (C.holds_step hholds _) nofun⟩

/-- What follows the making of a label may define it. -/
theorem freshLabel {hint : String} {f : Label → Build σ α} (hhint : C.Permits (.fresh hint))
    (hf : ∀ l, Logs C (l :: known) (f l)) : Logs C known (do f (← Build.freshLabel hint)) := by
  intro s n hholds hknown
  have hfresh : Logged C (Build.freshLabel hint) s n [.fresh hint]
      (.ok (.numbered hint s.builder.nextLabel)) n :=
    .operation (perform_freshLabel s.builder n hint) hhint nofun (C.holds_step hholds _) nofun
  have hmade : Label.numbered hint s.builder.nextLabel ∈ (s.replay [.fresh hint]).made :=
    List.mem_append_right s.made List.mem_cons_self
  have hknown' := List.Subset.trans hknown (s.made_subset_replay [.fresh hint])
  obtain ⟨log, result, n', hlog⟩ := hf _ _ n hfresh.holds (List.cons_subset.2 ⟨hmade, hknown'⟩)
  exact ⟨_, _, _, hfresh.bind_ok hlog⟩

/-! ### Control structures -/

/-- Making a label under one of the hints of the control structures. -/
theorem controlLabel {hint : String} {f : Label → Build σ α} (hhint : hint ∈ controlHints)
    (hf : ∀ l, Logs C (l :: known) (f l)) : Logs C known (do f (← Build.freshLabel hint)) :=
  freshLabel (C.permits_usual hhint) hf

theorem block {body : Scope → Build σ Unit}
    (h : ∀ scope, Logs C (scope.finish :: scope.start :: known) (body scope)) :
    Logs C known (Build.block body) :=
  controlLabel (by decide) fun start => controlLabel (by decide) fun finish =>
    bind (define (by simp)) fun _ => bind (h { start, finish }) fun _ => define (by simp)

theorem cases {r : Reg} {empty one hash : Build σ Unit} (hempty : Logs C known empty)
    (hone : Logs C known one) (hhash : Logs C known hash) :
    Logs C known (Build.cases r empty one hash) := by
  refine controlLabel (by decide) fun onEmpty => controlLabel (by decide) fun onOne =>
    controlLabel (by decide) fun onHash => controlLabel (by decide) fun post => ?_
  have hsub : known ⊆ post :: onHash :: onOne :: onEmpty :: known :=
    fun _ h => by simp [h]
  exact bind (case r) fun _ => bind (jump _) fun _ => bind (jump _) fun _ => bind (jump _) fun _ =>
    bind (jump _) fun _ =>
      bind (define (by simp)) fun _ => bind (hempty.mono hsub) fun _ => bind (jump _) fun _ =>
      bind (define (by simp)) fun _ => bind (hone.mono hsub) fun _ => bind (jump _) fun _ =>
      bind (define (by simp)) fun _ => bind (hhash.mono hsub) fun _ => define (by simp)

theorem loopOn {r : Reg} {one hash : Scope → Build σ Unit}
    (hone : ∀ scope, Logs C (scope.finish :: scope.start :: known) (one scope))
    (hhash : ∀ scope, Logs C (scope.finish :: scope.start :: known) (hash scope)) :
    Logs C known (Build.loopOn r one hash) :=
  block fun scope => cases (jump _) (bind (hone scope) fun _ => jump _)
    (bind (hhash scope) fun _ => jump _)

theorem repeatOn {r : Reg} {one hash : Build σ Unit} (hone : Logs C known one)
    (hhash : Logs C known hash) : Logs C known (Build.repeatOn r one hash) :=
  loopOn (fun _ => hone.mono fun _ h => by simp [h]) (fun _ => hhash.mono fun _ h => by simp [h])

theorem whileNonempty {r : Reg} {body : Build σ Unit} (h : Logs C known body) :
    Logs C known (Build.whileNonempty r body) :=
  block fun _ => bind (cases (jump _) (pure ()) (pure ())) fun _ =>
    bind (h.mono fun _ h => by simp [h]) fun _ => jump _

theorem withTemp {body : Reg → Build σ Unit} (h : ∀ temp, Logs C known (body temp)) :
    Logs C known (Build.withTemp body) := by
  intro s n hholds hknown
  have halloc : Logged C Build.allocTemp s n _ _ n := .allocTemp hholds
  have hknown' := List.Subset.trans hknown (s.made_subset_replay [.alloc])
  obtain ⟨log, result, n', hlog⟩ := h s.builder.pool.leastFree _ n halloc.holds hknown'
  exact ⟨_, _, _, halloc.bind_ok hlog.thenFree⟩

/-! ### The library -/

theorem checkOperands (regs : List Reg) :
    Logs C known (Build.checkOperands regs : Build σ Unit) := by
  induction regs with
  | nil => exact pure ()
  | cons r rest ih =>
    refine bind (check r) fun _ => ?_
    split
    · exact bind (throw nofun) fun _ => ih
    · exact ih

theorem move (source target : Reg) : Logs C known (Build.move source target : Build σ Unit) :=
  bind (checkOperands _) fun _ => repeatOn (write _ _) (write _ _)

theorem copy (source target : Reg) : Logs C known (Build.copy source target : Build σ Unit) :=
  bind (checkOperands _) fun _ => withTemp fun _ =>
    bind (repeatOn (bind (write _ _) fun _ => write _ _) (bind (write _ _) fun _ => write _ _))
      fun _ => move _ _

theorem clear (r : Reg) : Logs C known (Build.clear r : Build σ Unit) :=
  bind (checkOperands _) fun _ => whileNonempty (pure ())

theorem swap (left right : Reg) : Logs C known (Build.swap left right : Build σ Unit) :=
  bind (checkOperands _) fun _ => withTemp fun _ =>
    bind (move _ _) fun _ => bind (move _ _) fun _ => move _ _

theorem prepend (symbol : Symbol) (target : Reg) :
    Logs C known (Build.prepend symbol target : Build σ Unit) :=
  withTemp fun _ => bind (write _ _) fun _ => bind (move _ _) fun _ => move _ _

theorem reverse (source target : Reg) : Logs C known (Build.reverse source target : Build σ Unit) :=
  bind (checkOperands _) fun _ => repeatOn (prepend _ _) (prepend _ _)

theorem call (c : Call Reg) : Logs C known (Build.call c : Build σ Unit) := by
  cases c with
  | move source target => exact move source target
  | copy source target => exact copy source target
  | clear r => exact clear r
  | swap left right => exact swap left right
  | reverse source target => exact reverse source target

theorem routine (r : Routine) (regs : List Reg) :
    Logs C known (Build.routine r regs : Build σ Unit) := by
  unfold Build.routine
  split
  · exact throw nofun
  · exact bind (comment _) fun _ => call _

end Logs

end Build

end TextMachine
