import TextMachine.Script.Run
import TextMachine.Proofs.Build.Sessions
import TextMachine.Proofs.Resolution.Positions

/-!
# Labels of scripts

A script of any size comes down to a log of operations on its builder (`Step.logs`,
`Script.exists_accounts`): those that it asks for itself, at any depth, and the usual ones of the
control structures and routines. From the log one reads which of the labels made in a run have the
same name, and that under hints which do not end in a digit none do.
-/

namespace TextMachine

/-! ## What scripts ask for -/

mutual

/-- The operations that a step asks for itself and that may be unusual: labels under hints of its
own, and instructions appended unchecked. -/
def Step.requests : Step → List Operation
  | .fresh hint _ => [.fresh hint]
  | .emit i => [.emit i]
  | .block _ body => requestsAll body
  | .cases _ empty one hash => requestsAll empty ++ requestsAll one ++ requestsAll hash
  | .loopOn _ _ one hash => requestsAll one ++ requestsAll hash
  | .repeatOn _ one hash => requestsAll one ++ requestsAll hash
  | .whileNonempty _ body => requestsAll body
  | .withTemp _ body => requestsAll body
  | .attempt body => requestsAll body
  | _ => []

/-- The operations that the steps of a list ask for. -/
def requestsAll : List Step → List Operation
  | [] => []
  | step :: rest => step.requests ++ requestsAll rest

end

/-- The label that a value tells, if it tells one. -/
def Value.label? : Value → Option Label
  | .label l => some l
  | _ => none

/-- The labels told, in order. -/
def toldLabels (values : Array Value) : List Label :=
  values.toList.filterMap Value.label?

theorem toldLabels_push (values : Array Value) (v : Value) :
    toldLabels (values.push v) = toldLabels values ++ v.label?.toList := by
  rw [toldLabels, Array.toList_push, List.filterMap_append]
  cases v <;> rfl

/-! ## Logs of steps -/

/-- A script as a client: its label slots hold labels that have been made, it tells labels in the
order in which they were made, behind those told `earlier`, and it makes only usual operations and
those that it asks for. -/
def Script.client (earlier : List Label) (requests : List Operation) : Client Notes where
  Holds n made :=
    (∀ e ∈ n.labels, e.2 ∈ made) ∧ (earlier ++ toldLabels n.values).Sublist made
  holds_append h l :=
    ⟨fun e he => List.mem_append_left [l] (h.1 e he), h.2.trans (List.sublist_append_left _ _)⟩
  Permits op := op.Usual ∨ op ∈ requests
  permits_usual := .inl

namespace Build.Logs

open Scripted

variable {earlier known : List Label} {requests : List Operation}

/-- Reading the notes. -/
theorem notes : Logs (Script.client earlier requests) known Scripted.notes :=
  fun _ n hholds _ => ⟨[], .ok n, n, .nil rfl hholds nofun⟩

/-- Looking at the builder. -/
theorem builder : Logs (Script.client earlier requests) known (getThe Builder) :=
  fun s n hholds _ => ⟨[], .ok s.builder, n, .nil rfl hholds nofun⟩

theorem reg (r : RegRef) : Logs (Script.client earlier requests) known (Scripted.reg r) :=
  bind notes fun _ => pure _

/-- Changing the notes in a way that the known labels allow. -/
theorem note {f : Notes → Notes}
    (hf : ∀ n made, known ⊆ made → (Script.client earlier requests).Holds n made →
      (Script.client earlier requests).Holds (f n) made) :
    Logs (Script.client earlier requests) known (Scripted.note f) :=
  fun s n hholds hknown => ⟨[], .ok (), f n, .nil rfl (hf n s.made hknown hholds) nofun⟩

/-- Telling anything but a label. -/
theorem tell {v : Value} (hv : v.label? = none) :
    Logs (Script.client earlier requests) known (Scripted.tell v) := by
  refine note fun n made _ h => ⟨h.1, ?_⟩
  show (earlier ++ toldLabels (n.values.push v)).Sublist made
  rw [toldLabels_push, hv]
  simpa using h.2

theorem setReg (slot : String) (r : Reg) :
    Logs (Script.client earlier requests) known (Scripted.note (·.setReg slot r)) :=
  note fun _ _ _ h => h

theorem keepScope {slot : Option String} {scope : Scope} (hstart : scope.start ∈ known)
    (hfinish : scope.finish ∈ known) :
    Logs (Script.client earlier requests) known (Scripted.keepScope slot scope) := by
  cases slot with
  | none => exact pure ()
  | some name =>
    refine note fun n made hknown h => ⟨?_, h.2⟩
    intro e he
    rcases List.mem_cons.1 he with rfl | he
    · exact hknown hfinish
    · rcases List.mem_cons.1 he with rfl | he
      · exact hknown hstart
      · exact h.1 e he

/-- Making a label, telling it and keeping it in a slot. -/
theorem fresh {hint : String} {slot : Option String} (hhint : .fresh hint ∈ requests) :
    Logs (Script.client earlier requests) known (Step.fresh hint slot).perform := by
  intro s n hholds _
  -- the label told is the one made last, so it comes behind the others on both sides
  have htold : (Script.client earlier requests).Holds
      (n.tell (.label (.numbered hint s.builder.nextLabel))) (s.step (.fresh hint)).2.made := by
    refine ⟨((Script.client earlier requests).holds_step hholds _).1, ?_⟩
    show (earlier ++ toldLabels (n.values.push _)).Sublist (s.made ++ _)
    rw [toldLabels_push, ← List.append_assoc]
    exact hholds.2.append (List.Sublist.refl _)
  cases slot with
  | none => exact ⟨_, _, _, .operation rfl (.inr hhint) nofun htold nofun⟩
  | some name =>
    refine ⟨_, _, _, .operation rfl (.inr hhint) nofun ⟨?_, htold.2⟩ nofun⟩
    intro e he
    rcases List.mem_cons.1 he with rfl | he
    · exact List.mem_append_right s.made List.mem_cons_self
    · exact htold.1 e he

/-- Defining the label in a slot. -/
theorem defineSlot (slot : String) :
    Logs (Script.client earlier requests) known (Step.define slot).perform := by
  intro s n hholds _
  have hmade : n.label slot = ⟨""⟩ ∨ n.label slot ∈ s.made := by
    rw [Notes.label]
    cases hl : n.labels.lookup slot with
    | none => exact .inl rfl
    | some l => exact .inr (hholds.1 _ (mem_of_lookup_eq_some hl))
  have hdefine : Logged (Script.client earlier requests) (Build.define (n.label slot)) s n _ _ n :=
    .define hmade hholds
  exact ⟨_, _, _, Logged.bind_ok (.nil rfl hholds nofun) hdefine⟩

end Build.Logs

mutual

theorem Step.logs {earlier : List Label} {requests : List Operation} (step : Step)
    (h : step.requests ⊆ requests) (known : List Label) :
    Build.Logs (Script.client earlier requests) known step.perform := by
  match step with
  | .fresh hint slot => exact .fresh (h List.mem_cons_self)
  | .define label => exact .defineSlot label
  | .jump label => exact .bind .notes fun _ => .jump _
  | .emit i => exact .emit (.inr (h List.mem_cons_self))
  | .write s r => exact .bind (.reg r) fun _ => .write _ _
  | .case r => exact .bind (.reg r) fun _ => .case _
  | .check r => exact .bind (.reg r) fun _ => .bind (.check _) fun _ => .tell rfl
  | .comment text => exact .comment text
  | .nop => exact .nop
  | .size => exact .bind .builder fun _ => .tell rfl
  | .isEmpty => exact .bind .builder fun _ => .tell rfl
  | .alloc slot => exact .bind .allocTemp fun _ => .bind (.tell rfl) fun _ => .setReg slot _
  | .free r => exact .bind (.reg r) fun _ => .freeTemp _
  | .block slot body =>
    rw [Step.perform]
    rw [Step.requests] at h
    exact .block fun _ => .bind (.keepScope (by simp) (by simp)) fun _ => performAll_logs body h _
  | .restart scope => exact .bind .notes fun _ => .jump _
  | .exit scope => exact .bind .notes fun _ => .jump _
  | .cases r empty one hash =>
    rw [Step.perform]
    rw [Step.requests] at h
    obtain ⟨h, hhash⟩ := List.append_subset.1 h
    obtain ⟨hempty, hone⟩ := List.append_subset.1 h
    exact .bind (.reg r) fun _ => .cases (performAll_logs empty hempty known)
      (performAll_logs one hone known) (performAll_logs hash hhash known)
  | .loopOn r slot one hash =>
    rw [Step.perform]
    rw [Step.requests] at h
    obtain ⟨hone, hhash⟩ := List.append_subset.1 h
    exact .bind (.reg r) fun _ => .loopOn
      (fun _ => .bind (.keepScope (by simp) (by simp)) fun _ => performAll_logs one hone _)
      (fun _ => .bind (.keepScope (by simp) (by simp)) fun _ => performAll_logs hash hhash _)
  | .repeatOn r one hash =>
    rw [Step.perform]
    rw [Step.requests] at h
    obtain ⟨hone, hhash⟩ := List.append_subset.1 h
    exact .bind (.reg r) fun _ => .repeatOn (performAll_logs one hone known)
      (performAll_logs hash hhash known)
  | .whileNonempty r body =>
    rw [Step.perform]
    rw [Step.requests] at h
    exact .bind (.reg r) fun _ => .whileNonempty (performAll_logs body h known)
  | .withTemp slot body =>
    rw [Step.perform]
    rw [Step.requests] at h
    exact .withTemp fun _ => .bind (.tell rfl) fun _ => .bind (.setReg slot _) fun _ =>
      performAll_logs body h known
  | .call c => exact .bind .notes fun _ => .call _
  | .routine r operands => exact .bind .notes fun _ => .routine _ _
  | .attempt body =>
    rw [Step.perform]
    rw [Step.requests] at h
    exact .bind (.attempt (performAll_logs body h known)) fun _ => .tell rfl

theorem performAll_logs {earlier : List Label} {requests : List Operation} (steps : List Step)
    (h : requestsAll steps ⊆ requests) (known : List Label) :
    Build.Logs (Script.client earlier requests) known (performAll steps) := by
  match steps with
  | [] => exact .pure ()
  | step :: rest =>
    obtain ⟨hstep, hrest⟩ := List.append_subset.1 h
    exact .bind (step.logs hstep known) fun _ => performAll_logs rest hrest known

end

/-! ## Logs of whole scripts -/

/-- The labels told during a step. -/
def Report.told (r : Report) : List Label :=
  toldLabels r.values

/-- A log accounts for a run on a session, given by its reports and the builder that it leaves: it
leaves the same builder, defines only labels that have been made or the one with an empty name,
makes the labels told in the order in which they were told, behind those told `earlier`, and a step
that failed because of a label defined twice did so in the log. -/
structure Session.Accounts (s : Session) (earlier : List Label) (log : List Operation)
    (run : List Report × Builder) : Prop where
  builder_eq : run.2 = (s.replay log).builder
  defines : ∀ l, .define l ∈ log → l = ⟨""⟩ ∨ l ∈ (s.replay log).made
  told : (earlier ++ run.1.flatMap Report.told).Sublist (s.replay log).made
  duplicate : ∀ report ∈ run.1, ∀ l, report.result = .error (.duplicateLabel l) →
    ∃ pre post, log = pre ++ .define l :: post ∧ l ∈ (s.replay pre).builder.defined

/-- A log of one step followed by a log of the others. The step tells its labels behind the earlier
ones, the other steps behind those. -/
theorem Session.Accounts.cons {s : Session} {earlier : List Label} {requests : List Operation}
    {x : Scripted Unit} {n n' : Notes} {log log' : List Operation} {report : Report}
    {run : List Report × Builder}
    (hstep : Build.Logged (Script.client earlier requests) x s n log report.result n')
    (hrest : (s.replay log).Accounts (earlier ++ report.told) log' run) :
    s.Accounts earlier (log ++ log') (report :: run.1, run.2) where
  builder_eq := by
    rw [replay_append]
    exact hrest.builder_eq
  defines l hl := by
    rw [replay_append]
    rcases List.mem_append.1 hl with hl | hl
    · exact (hstep.defines l hl).imp_right fun h => made_subset_replay _ _ h
    · exact hrest.defines l hl
  told := by
    rw [replay_append, List.flatMap_cons, ← List.append_assoc]
    exact hrest.told
  duplicate r hr l hl := by
    rcases List.mem_cons.1 hr with rfl | hr
    · obtain ⟨pre, post, rfl, hold⟩ := hstep.duplicate l hl
      exact ⟨pre, post ++ log', by simp, hold⟩
    · obtain ⟨pre, post, rfl, hold⟩ := hrest.duplicate r hr l hl
      refine ⟨log ++ pre, post, (List.append_assoc ..).symm, ?_⟩
      rwa [replay_append]

/-- Every run of a script has a log of usual operations and of those that the script asks for. -/
theorem Script.exists_accounts (script : Script) (s : Session) (n : Notes) (earlier : List Label)
    (hlabels : ∀ e ∈ n.labels, e.2 ∈ s.made) (hearlier : earlier.Sublist s.made) :
    ∃ log, (∀ op ∈ log, op.Usual ∨ op ∈ requestsAll script) ∧
      s.Accounts earlier log (runFrom s.builder n script) := by
  induction script generalizing s n earlier with
  | nil => exact ⟨[], nofun, rfl, nofun, by simpa [runFrom] using hearlier, nofun⟩
  | cons step rest ih =>
    have hholds : (client earlier step.requests).Holds { n with values := #[] } s.made :=
      ⟨hlabels, by simpa [toldLabels] using hearlier⟩
    obtain ⟨log, result, n', hlog⟩ :=
      step.logs (List.Subset.refl _) [] s _ hholds (List.nil_subset _)
    obtain ⟨log', hpermits, hlog'⟩ :=
      ih (s.replay log) n' (earlier ++ toldLabels n'.values) hlog.holds.1 hlog.holds.2
    refine ⟨log ++ log', ?_, ?_⟩
    · intro op hop
      rw [requestsAll, List.mem_append]
      rcases List.mem_append.1 hop with hop | hop
      · exact (hlog.permits op hop).imp_right .inl
      · exact (hpermits op hop).imp_right .inr
    · rw [runFrom, Step.report, hlog.perform_eq]
      exact .cons hlog hlog'

/-! ## Which labels have one name -/

section Names

variable {log : List Operation} {base : Nat}

/-- Labels made on a new builder are numbered from 0 on. -/
theorem made_replay_startingAt (log : List Operation) (base : Nat) :
    (Session.replay { builder := .startingAt base } log).made =
      (log.filterMap Operation.hint?).mapIdx fun k hint => .numbered hint k := by
  rw [Session.made_replay]
  simp [Builder.startingAt]

theorem mem_defined_replay_startingAt {l : Label} :
    l ∈ (Session.replay { builder := .startingAt base } log).builder.defined ↔
      .define l ∈ log := by
  rw [Session.mem_defined_replay]
  simp [Builder.startingAt]

/-- Under hints that do not end in a digit, all labels made have different names. -/
theorem nodup_made_replay (h : ∀ hint, .fresh hint ∈ log → ¬ EndsInDigit hint) :
    (Session.replay { builder := .startingAt base } log).made.Nodup := by
  rw [made_replay_startingAt]
  refine List.pairwise_iff_getElem.2 fun i j hi hj hlt => ?_
  rw [List.getElem_mapIdx, List.getElem_mapIdx]
  apply Label.numbered_ne_numbered hlt
  obtain ⟨op, hop, hhint⟩ := List.mem_filterMap.1 (List.getElem_mem (List.length_mapIdx ▸ hi))
  rw [Operation.hint?_eq_some_iff] at hhint
  exact h _ (hhint ▸ hop)

theorem not_endsInDigit_of_mem_controlHints {hint : String} (h : hint ∈ controlHints) :
    ¬ EndsInDigit hint := by
  revert hint
  decide

end Names

/-- The labels of a session. Every run of a script on a new builder has a log of the operations that
it comes down to. Of two labels made in it, the earlier and the later one have the same name exactly
when the hint of the earlier is that of the later followed by the digits that its number has more.
So if no hint that the script gives ends in a digit, all labels made are different, those told to
the script and those of the control structures alike; to define a label fails only if it has been
defined before, and each belongs to one call; and a step fails because of a label only if the log
defines that label twice. -/
theorem labels_of_sessions (script : Script) (base : Nat) :
    let start : Session := { builder := .startingAt base }
    let run := script.run (.startingAt base)
    ∃ log : List Operation,
      (∀ op ∈ log, op.Usual ∨ op ∈ requestsAll script) ∧
      start.Accounts [] log run ∧
      (∀ i j first second, i < j →
        (log.filterMap Operation.hint?)[i]? = some first →
        (log.filterMap Operation.hint?)[j]? = some second →
        ((start.replay log).made[i]? = (start.replay log).made[j]? ↔
          ∃ d, 0 < d ∧ first = second ++ toString d ∧ j = d * 10 ^ (toString i).length + i)) ∧
      ((∀ hint, .fresh hint ∈ requestsAll script → ¬ EndsInDigit hint) →
        (start.replay log).made.Nodup ∧
        (run.1.flatMap Report.told).Nodup ∧
        (∀ pre l post, log = pre ++ .define l :: post →
          (((start.replay pre).step (.define l)).1 = .error (.duplicateLabel l) ↔
            .define l ∈ pre) ∧
          (l = ⟨""⟩ ∨ ∃! call : Nat, (start.replay log).made[call]? = some l)) ∧
        ∀ report ∈ run.1, ∀ l, report.result = .error (.duplicateLabel l) →
          ∃ pre post, log = pre ++ .define l :: post ∧ .define l ∈ pre) := by
  intro start run
  obtain ⟨log, hpermits, hlog⟩ := script.exists_accounts start {} [] nofun (List.nil_sublist _)
  refine ⟨log, hpermits, hlog, ?_, ?_⟩
  · intro i j first second hlt hfirst hsecond
    rw [made_replay_startingAt, List.getElem?_mapIdx, List.getElem?_mapIdx, hfirst, hsecond,
      Option.map_some, Option.map_some, Option.some_inj]
    exact Label.numbered_eq_numbered_iff hlt
  · intro hhints
    have hfresh : ∀ hint, .fresh hint ∈ log → ¬ EndsInDigit hint := by
      intro hint hmem
      rcases hpermits _ hmem with husual | hasked
      · exact not_endsInDigit_of_mem_controlHints husual
      · exact hhints hint hasked
    have hnodup : (start.replay log).made.Nodup := nodup_made_replay hfresh
    refine ⟨hnodup, hlog.told.nodup hnodup, ?_, ?_⟩
    · rintro pre l post rfl
      refine ⟨?_, (hlog.defines l (by simp)).imp_right fun hmade => ?_⟩
      · rw [Session.step_eq_duplicateLabel_iff, mem_defined_replay_startingAt]
        exact and_iff_right rfl
      · obtain ⟨call, hcall⟩ := List.mem_iff_getElem?.1 hmade
        refine ⟨call, hcall, fun other hother => ?_⟩
        obtain ⟨hlt, -⟩ := List.getElem?_eq_some_iff.1 hother
        exact (List.getElem?_inj hlt hnodup).1 (hother.trans hcall.symm)
    · intro report hreport l hl
      obtain ⟨pre, post, rfl, hold⟩ := hlog.duplicate report hreport l hl
      exact ⟨pre, post, rfl, mem_defined_replay_startingAt.1 hold⟩

/-- Ten labels, the first under a hint that ends in a digit, and then `rest`. -/
def tenLabels (hint : String) (rest : Script) : Script :=
  .fresh (hint ++ "1") (some "p") :: List.replicate 9 (.fresh "x" none) ++ rest

/-- Two calls return the same name, so the second of the two labels cannot be defined though it has
not been defined before; and a block fails over a label that the script has made. -/
theorem labels_of_sessions_collide :
    let defining :=
      (tenLabels "a" [.fresh "a" (some "q"), .define "p", .define "q"]).run (.startingAt 1000)
    let blocked := (tenLabels "start" [.define "p", .block none []]).run (.startingAt 1000)
    ¬ (defining.1.flatMap Report.told).Nodup ∧
      (defining.1.map Report.result).getLast? = some (.error (.duplicateLabel ⟨"a10"⟩)) ∧
      (blocked.1.map Report.result).getLast? = some (.error (.duplicateLabel ⟨"start10"⟩)) := by
  decide +kernel

end TextMachine
