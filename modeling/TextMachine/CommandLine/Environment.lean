import TextMachine.CommandLine.Command

/-!
# The command in its environment

An environment is known by what it does when a file is opened for writing: which place a path leads
to and what becomes of the bytes that are written there, or why there is no such place. Which files
there are already, in which directories, and what is special about some of them is up to the
environment. The command relies on `Environment.Lawful` only: opening creates or empties the one
file that is opened, and a file that cannot be opened is none that was touched.

`run` is the whole command as a function of its words and of the files that there are before.
-/

namespace TextMachine.CommandLine

variable {Place : Type}

/-! ## Environments -/

/-- What the files hold, by their places; `none` where there is no file. -/
abbrev Files (Place : Type) := Place → Option (Array UInt8)

/-- Put a file with the given contents at a place, instead of what is there. -/
def Files.write [DecidableEq Place] (files : Files Place) (place : Place) (bytes : Array UInt8) :
    Files Place :=
  fun other => if other = place then some bytes else files other

namespace Files

variable [DecidableEq Place] (files : Files Place) (place : Place)

@[simp]
theorem write_self (bytes : Array UInt8) : files.write place bytes place = some bytes :=
  if_pos rfl

@[simp]
theorem write_write (first second : Array UInt8) :
    (files.write place first).write place second = files.write place second := by
  funext other
  by_cases h : other = place <;> simp [write, h]

theorem write_eq_self {files : Files Place} {place : Place} {bytes : Array UInt8}
    (h : files place = some bytes) : files.write place bytes = files := by
  funext other
  by_cases hplace : other = place <;> simp [write, hplace, h]

end Files

/-- What the command finds where it runs. -/
structure Environment (Place : Type) where
  /-- What the standard output does with what it is given. -/
  stdout : Medium := .keeping
  /-- Open a file for writing by its path, among the files that there are: its place and what it
  does with what it is given, and the files afterwards. -/
  create : String → Files Place → Except OutputError (Place × Medium) × Files Place

/-- What is relied on when a file is opened for writing. -/
structure Environment.Lawful [DecidableEq Place] (env : Environment Place) : Prop where
  /-- A file that was opened is there and empty, and no other one has changed. -/
  create_ok : ∀ {path : String} {files after : Files Place} {place : Place} {medium : Medium},
    env.create path files = (.ok (place, medium), after) → after = files.write place #[]
  /-- A file that could not be opened leaves all of them as they were. -/
  create_error : ∀ {path : String} {files after : Files Place} {e : OutputError},
    env.create path files = (.error e, after) → after = files

/-! ## Effects -/

/-- What there is while the command runs. -/
structure World (Place : Type) where
  files : Files Place
  stdout : Array UInt8 := #[]
  stderr : String := ""

/-- Something that is open for writing. -/
structure Handle (Place : Type) where
  /-- The place of the file; `none` is the standard output. -/
  place : Option Place
  medium : Medium

namespace Handle

/-- What has been written to a handle. -/
def output (handle : Handle Place) (world : World Place) : Output :=
  { medium := handle.medium
    bytes := match handle.place with
      | none => world.stdout
      | some place => (world.files place).getD #[] }

/-- Replace what has been written to a handle. -/
def store [DecidableEq Place] (handle : Handle Place) (bytes : Array UInt8) (world : World Place) :
    World Place :=
  match handle.place with
  | none => { world with stdout := bytes }
  | some place => { world with files := world.files.write place bytes }

variable [DecidableEq Place] (handle : Handle Place) (world : World Place)

@[simp]
theorem output_store (bytes : Array UInt8) :
    handle.output (handle.store bytes world) = { medium := handle.medium, bytes } := by
  rcases handle with ⟨_ | place, medium⟩ <;> simp [output, store]

@[simp]
theorem store_store (first second : Array UInt8) :
    handle.store second (handle.store first world) = handle.store second world := by
  rcases handle with ⟨_ | place, medium⟩ <;> simp [store]

end Handle

/-- The effects of the command on its environment. What is written arrives at once. -/
def Environment.host [DecidableEq Place] (env : Environment Place) :
    Host (Handle Place) (StateM (World Place)) where
  stdout := { place := none, medium := env.stdout }
  create path := do
    let world ← get
    let (opened, files) := env.create path world.files
    set { world with files }
    let (place, medium) ← liftExcept opened
    return { place := some place, medium }
  put handle piece := do
    let world ← get
    let (result, output) := (Output.put piece).run.run (handle.output world)
    set (handle.store output.bytes world)
    liftExcept result
  flush _ := return
  complain text := modify fun world => { world with stderr := world.stderr ++ text }

/-! ## Outcomes -/

/-- What the command leaves behind. -/
structure Outcome (Place : Type) where
  status : Nat := 0
  stdout : Array UInt8 := #[]
  stderr : String := ""
  files : Files Place

/-- Run the command with the given words among the given files. -/
def run [DecidableEq Place] (env : Environment Place) (files : Files Place) (words : List String) :
    Outcome Place :=
  let (status, world) := (command env.host words).run { files }
  { status, stdout := world.stdout, stderr := world.stderr, files := world.files }

end TextMachine.CommandLine
