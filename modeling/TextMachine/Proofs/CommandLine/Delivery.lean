import TextMachine.CommandLine.Environment
import TextMachine.Proofs.Text.Limits

/-!
# Delivery

What becomes of a program that the command writes. A medium deals with the text as a whole, however
it is cut into pieces (`Program.run_emit`). Writing through a handle changes nothing but what the
handle stands for (`run_forM_put`, `Plan.run_writeTo`), and in a lawful environment a file has
nothing in it once it is open. So there are five ways for a delivery to end
(`Environment.Delivers`), and a plan whose code resolves ends in one of them (`Plan.delivers`).
-/

namespace TextMachine

/-! ## Media -/

namespace Medium

/-- What a medium has of the bytes that were written to it. -/
def stored : Medium → Array UInt8 → Array UInt8
  | keeping, bytes => bytes
  | bounded limit, bytes => bytes.take limit
  | discarding, _ => #[]
  | refusing _, _ => #[]

/-- Whether a medium took all the bytes that were written to it. -/
def verdict : Medium → Array UInt8 → Except OutputError Unit
  | keeping, _ => .ok ()
  | bounded limit, bytes => if bytes.size ≤ limit then .ok () else .error .full
  | discarding, _ => .ok ()
  | refusing why, bytes => if bytes = #[] then .ok () else .error why

end Medium

theorem utf8_eq_empty_iff {cs : List Char} : utf8 cs = #[] ↔ cs = [] := by
  constructor
  · intro h
    have hlength := length_le_size_utf8 cs
    rw [h] at hlength
    exact List.length_eq_zero_iff.1 (Nat.le_zero.1 hlength)
  · rintro rfl
    rfl

/-- However a program is cut into pieces, a medium deals with its text as a whole. -/
theorem Program.run_emit (p : Program) (style : Style) (medium : Medium) :
    (p.emit style).run.run { medium } =
      (medium.verdict (p.text style).toUTF8.data,
        { medium, bytes := medium.stored (p.text style).toUTF8.data }) := by
  have hbytes : utf8 (p.characters style) = (p.text style).toUTF8.data := by
    rw [← toList_text, utf8_toList]
  cases medium with
  | keeping =>
    rw [p.run_emit_keeping, hbytes, Array.empty_append]
    rfl
  | bounded limit => exact p.run_emit_bounded style limit
  | discarding => exact p.run_emit_discarding style #[]
  | refusing why =>
    rw [p.run_emit_refusing, ← hbytes]
    simp only [← utf8_eq_empty_iff]
    rfl

namespace CommandLine

variable {Place : Type} [DecidableEq Place] {env : Environment Place}

/-- What is left behind when a text is written where a path says. The standard output or the opened
file has what its medium keeps of the text, whatever a file at that place held before, and all else
is as it was. -/
inductive Environment.Delivers (env : Environment Place) (files : Files Place)
    (path text : String) : Outcome Place → Prop
  | printed (hpath : path = "-") (hverdict : env.stdout.verdict text.toUTF8.data = .ok ()) :
      Delivers env files path text
        { status := 0, stdout := env.stdout.stored text.toUTF8.data, stderr := "", files }
  | notPrinted {e : OutputError} (hpath : path = "-")
      (hverdict : env.stdout.verdict text.toUTF8.data = .error e) :
      Delivers env files path text
        { status := 1
          stdout := env.stdout.stored text.toUTF8.data
          stderr := "Error: " ++ "Failed to emit to stdout" ++ "\n\nCaused by:\n    0: " ++
            "I/O error" ++ "\n    1: " ++ e.message ++ "\n"
          files }
  | notOpened {e : OutputError} (hpath : path ≠ "-")
      (hopen : (env.create path files).1 = .error e) :
      Delivers env files path text
        { status := 1
          stdout := #[]
          stderr := "Error: " ++ ("Failed to open for writing: " ++ path) ++
            "\n\nCaused by:\n    " ++ e.message ++ "\n"
          files }
  | saved {place : Place} {medium : Medium} (hpath : path ≠ "-")
      (hopen : (env.create path files).1 = .ok (place, medium))
      (hverdict : medium.verdict text.toUTF8.data = .ok ()) :
      Delivers env files path text
        { status := 0
          stdout := #[]
          stderr := ""
          files := files.write place (medium.stored text.toUTF8.data) }
  | notSaved {place : Place} {medium : Medium} {e : OutputError} (hpath : path ≠ "-")
      (hopen : (env.create path files).1 = .ok (place, medium))
      (hverdict : medium.verdict text.toUTF8.data = .error e) :
      Delivers env files path text
        { status := 1
          stdout := #[]
          stderr := "Error: " ++ ("Failed to emit to file: " ++ path) ++
            "\n\nCaused by:\n    0: " ++ "I/O error" ++ "\n    1: " ++ e.message ++ "\n"
          files := files.write place (medium.stored text.toUTF8.data) }

/-! ## Writing to a handle -/

namespace Handle

variable {handle : Handle Place} {world : World Place}

/-- What is written to a handle has a place where it goes. -/
def IsOpen (handle : Handle Place) (world : World Place) : Prop :=
  ∀ place, handle.place = some place → ∃ bytes, world.files place = some bytes

theorem store_output (h : handle.IsOpen world) :
    handle.store (handle.output world).bytes world = world := by
  rcases handle with ⟨_ | place, medium⟩
  · rfl
  · obtain ⟨bytes, hbytes⟩ := h place rfl
    have hfiles : world.files.write place bytes = world.files := Files.write_eq_self hbytes
    simp [store, output, hbytes, hfiles]

theorem IsOpen.store (bytes : Array UInt8) : handle.IsOpen (handle.store bytes world) := by
  intro place hplace
  exact ⟨bytes, by simp [Handle.store, hplace]⟩

end Handle

theorem run_adapt {σ ε ε' α : Type} (f : ε → ε') (x : ExceptT ε (StateM σ) α) (s : σ) :
    (x.adapt f).run.run s = ((x.run.run s).1.mapError f, (x.run.run s).2) := rfl

variable (env) in
theorem run_put (handle : Handle Place) (piece : Piece) (world : World Place) :
    (env.host.put handle piece).run.run world =
      (((Output.put piece).run.run (handle.output world)).1,
        handle.store ((Output.put piece).run.run (handle.output world)).2.bytes world) := by
  show (liftExcept ((Output.put piece).run.run (handle.output world)).1 :
    ExceptT OutputError (StateM (World Place)) Unit).run.run
      (handle.store ((Output.put piece).run.run (handle.output world)).2.bytes world) = _
  cases ((Output.put piece).run.run (handle.output world)).1 <;> rfl

variable (env) in
theorem run_create (path : String) (files : Files Place) :
    (env.host.create path).run.run { files } =
      ((env.create path files).1.map fun file => { place := some file.1, medium := file.2 },
        { files := (env.create path files).2 }) := by
  show (liftExcept (env.create path files).1 >>= _ :
    ExceptT OutputError (StateM (World Place)) (Handle Place)).run.run
      { files := (env.create path files).2 } = _
  cases (env.create path files).1 <;> rfl

/-- Writing pieces to a handle is writing them to its output. -/
theorem run_forM_put (handle : Handle Place) (pieces : List Piece) {world : World Place}
    (h : handle.IsOpen world) :
    (pieces.forM (env.host.put handle)).run.run world =
      (((pieces.forM Output.put).run.run (handle.output world)).1,
        handle.store ((pieces.forM Output.put).run.run (handle.output world)).2.bytes world) := by
  induction pieces generalizing world with
  | nil =>
    show ((.ok (), world) : Except OutputError Unit × World Place) =
      (.ok (), handle.store (handle.output world).bytes world)
    rw [Handle.store_output h]
  | cons piece rest ih =>
    rw [Output.run_forM_cons, Output.run_forM_cons, run_put]
    have hmedium : ((Output.put piece).run.run (handle.output world)).2.medium = handle.medium := by
      rw [Output.run_put]
      rfl
    generalize (Output.put piece).run.run (handle.output world) = result at hmedium ⊢
    rcases result with ⟨e | u, o⟩
    · rfl
    · -- the rest finds what the piece has left at the handle
      have houtput : handle.output (handle.store o.bytes world) = o := by
        rw [Handle.output_store, ← hmedium]
      show (rest.forM (env.host.put handle)).run.run (handle.store o.bytes world) = _
      rw [ih (.store o.bytes), houtput, Handle.store_store]

namespace Plan

variable {p : Plan} {program : Program}

/-- A plan whose code resolves is written as the program to a handle that has nothing yet. -/
theorem run_writeTo {handle : Handle Place} {world : World Place}
    (hresolve : resolve p.code = .ok program) (hopen : handle.IsOpen world)
    (hempty : handle.output world = { medium := handle.medium }) :
    (p.writeTo env.host handle).run.run world =
      ((handle.medium.verdict (program.text p.style).toUTF8.data).mapError .output,
        handle.store (handle.medium.stored (program.text p.style).toUTF8.data) world) := by
  have hemit : ((program.pieces p.style).forM Output.put).run.run { medium := handle.medium } = _ :=
    program.run_emit p.style handle.medium
  have hassemble : (assembleBy (env.host.put handle) p.code p.style).run.run world =
      ((handle.medium.verdict (program.text p.style).toUTF8.data).mapError .output,
        handle.store (handle.medium.stored (program.text p.style).toUTF8.data) world) := by
    unfold assembleBy
    rw [hresolve]
    show (((program.pieces p.style).forM (env.host.put handle)).adapt
      AssembleError.output).run.run world = _
    rw [run_adapt, run_forM_put handle _ hopen, hempty, hemit]
  unfold writeTo
  rw [ExceptT.run_bind, StateT.run_bind, hassemble]
  cases handle.medium.verdict (program.text p.style).toUTF8.data <;> rfl

/-- Delivery to the standard output. -/
theorem run_deliver_stdout (hresolve : resolve p.code = .ok program) (houtput : p.output = "-")
    (files : Files Place) :
    (p.deliver env.host).run.run { files } =
      (((env.stdout.verdict (program.text p.style).toUTF8.data).mapError .output).mapError
          Failure.emitToStdout,
        { files, stdout := env.stdout.stored (program.text p.style).toUTF8.data }) := by
  have hwritten : (p.writeTo env.host env.host.stdout).run.run { files } = _ :=
    run_writeTo hresolve nofun rfl
  unfold deliver
  rw [if_pos houtput, run_adapt, hwritten]
  rfl

theorem run_deliver_of_create_error {e : OutputError} {files after : Files Place}
    (houtput : p.output ≠ "-") (hcreate : env.create p.output files = (.error e, after)) :
    (p.deliver env.host).run.run { files } =
      (.error (.openFile p.output e), { files := after }) := by
  unfold deliver
  rw [if_neg houtput, ExceptT.run_bind, StateT.run_bind, run_adapt, run_create, hcreate]
  rfl

/-- Delivery to a file, which is empty once it has been opened. -/
theorem run_deliver_of_create_ok {place : Place} {medium : Medium} {files : Files Place}
    (hresolve : resolve p.code = .ok program) (houtput : p.output ≠ "-")
    (hcreate : env.create p.output files = (.ok (place, medium), files.write place #[])) :
    (p.deliver env.host).run.run { files } =
      (((medium.verdict (program.text p.style).toUTF8.data).mapError .output).mapError
          (Failure.emitToFile p.output),
        { files := files.write place (medium.stored (program.text p.style).toUTF8.data) }) := by
  let handle : Handle Place := { place := some place, medium }
  let world : World Place := { files := files.write place #[] }
  have hopen : handle.IsOpen world := by
    rintro _ ⟨⟩
    exact ⟨#[], Files.write_self files place #[]⟩
  have hempty : handle.output world = { medium } := by
    simp [handle, world, Handle.output]
  have hwritten : (p.writeTo env.host handle).run.run world = _ :=
    run_writeTo hresolve hopen hempty
  unfold deliver
  rw [if_neg houtput, ExceptT.run_bind, StateT.run_bind, run_adapt, run_create, hcreate]
  show ((p.writeTo env.host handle).adapt (Failure.emitToFile p.output)).run.run world = _
  rw [run_adapt, hwritten]
  simp [handle, world, Handle.store]

end Plan

/-! ## Outcomes -/

/-- What is left behind when the command is done. -/
def Outcome.conclude : Except Failure Unit × World Place → Outcome Place
  | (.ok (), world) =>
    { status := 0, stdout := world.stdout, stderr := world.stderr, files := world.files }
  | (.error f, world) =>
    { status := 1
      stdout := world.stdout
      stderr := world.stderr ++ f.report
      files := world.files }

theorem run_of_request {words : List String} {r : Request} (h : Request.ofWords words = .ok r)
    (files : Files Place) :
    run env files words = .conclude ((r.fulfil env.host).run.run { files }) := by
  unfold run command
  rw [h]
  dsimp only
  rw [StateT.run_bind]
  rcases (r.fulfil env.host).run.run { files } with ⟨f | u, world⟩ <;> rfl

/-- A request that is not planned leaves a report and nothing else. -/
theorem run_of_failure {words : List String} {r : Request} {f : Failure}
    (h : Request.ofWords words = .ok r) (hplan : r.plan = .error f) (files : Files Place) :
    run env files words = { status := 1, stdout := #[], stderr := f.report, files } := by
  rw [run_of_request h, Request.fulfil, hplan]
  show ({ status := 1, stdout := #[], stderr := "" ++ f.report, files } : Outcome Place) = _
  rw [String.empty_append]

theorem run_of_plan {words : List String} {r : Request} {plan : Plan}
    (h : Request.ofWords words = .ok r) (hplan : r.plan = .ok plan) (files : Files Place) :
    run env files words = .conclude ((plan.deliver env.host).run.run { files }) := by
  rw [run_of_request h, Request.fulfil, hplan]
  rfl

theorem report_openFile (path : String) (e : OutputError) :
    (Failure.openFile path e).report =
      "Error: " ++ ("Failed to open for writing: " ++ path) ++ "\n\nCaused by:\n    " ++
        e.message ++ "\n" :=
  failureText_single _ _

theorem report_emitToFile (path : String) (e : OutputError) :
    (Failure.emitToFile path (.output e)).report =
      "Error: " ++ ("Failed to emit to file: " ++ path) ++ "\n\nCaused by:\n    0: " ++
        "I/O error" ++ "\n    1: " ++ e.message ++ "\n" :=
  failureText_pair _ _ _

theorem report_emitToStdout (e : OutputError) :
    (Failure.emitToStdout (.output e)).report =
      "Error: " ++ "Failed to emit to stdout" ++ "\n\nCaused by:\n    0: " ++ "I/O error" ++
        "\n    1: " ++ e.message ++ "\n" :=
  failureText_pair _ _ _

omit [DecidableEq Place] in
theorem Outcome.conclude_error (f : Failure) (stdout : Array UInt8) (files : Files Place) :
    conclude (.error f, { files, stdout }) =
      { status := 1, stdout, stderr := f.report, files } := by
  rw [conclude, String.empty_append]

/-- The program of a plan is delivered where the plan says. -/
theorem Plan.delivers {p : Plan} {program : Program} (henv : env.Lawful) (files : Files Place)
    (hresolve : resolve p.code = .ok program) :
    env.Delivers files p.output (program.text p.style)
      (.conclude ((p.deliver env.host).run.run { files })) := by
  by_cases houtput : p.output = "-"
  · rw [run_deliver_stdout hresolve houtput]
    cases hverdict : env.stdout.verdict (program.text p.style).toUTF8.data with
    | ok u => exact .printed houtput hverdict
    | error e =>
      show env.Delivers files p.output _ (.conclude (.error (.emitToStdout (.output e)), _))
      rw [Outcome.conclude_error, report_emitToStdout]
      exact .notPrinted houtput hverdict
  · cases hcreate : env.create p.output files with
    | mk opened after =>
      cases opened with
      | error e =>
        obtain rfl := henv.create_error hcreate
        rw [run_deliver_of_create_error houtput hcreate, Outcome.conclude_error, report_openFile]
        exact .notOpened houtput (by rw [hcreate])
      | ok file =>
        obtain ⟨place, medium⟩ := file
        obtain rfl := henv.create_ok hcreate
        rw [run_deliver_of_create_ok hresolve houtput hcreate]
        cases hverdict : medium.verdict (program.text p.style).toUTF8.data with
        | ok u => exact .saved houtput (by rw [hcreate]) hverdict
        | error e =>
          show env.Delivers files p.output _
            (.conclude (.error (.emitToFile p.output (.output e)), _))
          rw [Outcome.conclude_error, report_emitToFile]
          exact .notSaved houtput (by rw [hcreate]) hverdict

end CommandLine

end TextMachine
