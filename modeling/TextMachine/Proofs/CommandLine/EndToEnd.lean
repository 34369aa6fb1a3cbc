import TextMachine.Proofs.CommandLine.Arguments
import TextMachine.Proofs.CommandLine.Delivery
import TextMachine.Proofs.CommandLine.Requests
import TextMachine.Proofs.Library.Effects
import TextMachine.Proofs.Text.Reading

/-!
# The command, end to end

From the words of a command line to what the text that is written does when a machine runs it.

The routine of an accepted request is built, resolves and has its effect
(`Request.Accepts.exists_program`), and its program is delivered as text (`Plan.delivers`). The
first fault of any other request is reported, and nothing else happens
(`Request.FirstFault.plan_eq`, `run_of_failure`). All of this holds in every lawful environment,
whatever files there are.
-/

namespace TextMachine

/-! ## The routine of a call -/

/-- A routine on usable operands is built and resolves, and its program has the effect of the call
on words as long as the temporary is empty. -/
theorem Call.exists_program {c : Call Reg} {base : Nat}
    (hvalid : (Invocation.annotated c).Valid (max base 1)) :
    ∃ b loaded,
      (Build.routine c.routine c.operands : Build Unit Unit).perform (.startingAt base) () =
          (.ok (), b, ()) ∧
        resolve b.code.toList = .ok loaded ∧
          ∀ rs : Registers, Store.Words rs.contents → rs.contents ⟨max base 1⟩ = [] →
            HaltsProperly loaded.ops rs (c.effect rs.contents) := by
  let p : Structured 0 := .annotated c
  have hone : 1 ≤ max base 1 := Nat.le_max_right base 1
  obtain ⟨finished, loaded, hcompile, hresolve⟩ :=
    Structured.exists_compile_resolve p base (hvalid.allowed hone)
      ((Invocation.annotated c).noSelfJump_structured _)
  obtain ⟨b, hperform, rfl⟩ := Structured.perform_of_compile hcompile
  rw [Structured.build_annotated] at hperform
  refine ⟨b, loaded, hperform, hresolve, fun rs hwords htemp => ?_⟩
  have hruns : p.Terminates base rs.contents (c.effect rs.contents) := hvalid.runs hwords htemp
  obtain ⟨m, -, hreach⟩ :=
    (Structured.implements_terminates hcompile hresolve).reaches (e := ()) hruns
  exact haltsProperly_iff.2 ⟨m, hreach⟩

namespace CommandLine

/-- The routine of a request that can be fulfilled is built, and its program does what it is for. -/
theorem Request.Accepts.exists_program {r : Request} {numbers : List Nat} {base : Nat}
    (h : r.Accepts numbers base) :
    ∃ (c : Call Reg) (b : Builder) (program : Program),
      r.routine.call? (numbers.map Reg.mk) = some c ∧
        (Build.routine r.routine (numbers.map Reg.mk) : Build Unit Unit).perform
            (.startingAt base) () = (.ok (), b, ()) ∧
          resolve b.code.toList = .ok program ∧
            (∀ rs : Registers, Store.Words rs.contents → rs.contents ⟨max base 1⟩ = [] →
              HaltsProperly program.ops rs (c.effect rs.contents)) ∧
              r.plan = .ok { code := b.code.toList, style := r.style, output := r.output } := by
  have harity : (numbers.map Reg.mk).length = r.routine.arity := by
    rw [List.length_map, h.arity]
  obtain ⟨c, hcall⟩ := Option.ne_none_iff_exists'.1
    fun hnone => (Routine.call?_eq_none_iff.1 hnone) harity
  obtain ⟨hroutine, hoperands⟩ := Routine.operands_of_call?_eq_some hcall
  have hvalid : (Invocation.annotated c).Valid (max base 1) := by
    show c.operands.Nodup ∧ ∀ reg ∈ c.operands, 1 ≤ reg.index ∧ reg.index < max base 1
    rw [hoperands, List.forall_mem_map]
    exact ⟨h.distinct.map fun _ _ => Reg.mk.inj, h.inRange⟩
  obtain ⟨b, program, hperform, hresolve, heffect⟩ := c.exists_program hvalid
  rw [hroutine, hoperands] at hperform
  refine ⟨c, b, program, hcall, hperform, hresolve, heffect, ?_⟩
  rw [h.toReads.plan_eq, hperform]

/-- **The command, end to end.** Take any lawful environment, any files in it and any command line
that makes a request. The request asks for what the words say; the program is to be written on a
single line or without comments if the words for that are among the options. The output is reached
exactly if all register words and the word for the temporaries are numbers, the number of registers
is that of the routine, and the registers are different, at least 1 and below the temporaries. Then
what is delivered is the text of the routine as it was built and resolved, and however it is
written, the text read back has the effect of the call when a machine runs it on words with an empty
temporary. Otherwise there is a first fault, which is reported with its cause; nothing is printed,
and no file is created or changed. -/
theorem command_end_to_end {Place : Type} [DecidableEq Place] {env : Environment Place}
    (henv : env.Lawful) (files : Files Place) {words : List String} {r : Request}
    (h : Request.ofWords words = .ok r) :
    (∃ args, Sorts words args ∧ r.Matches args) ∧
    (r.compact = true ↔ "--compact" ∈ words.takeWhile (· ≠ "--")) ∧
    (r.noComments = true ↔ "--no-comments" ∈ words.takeWhile (· ≠ "--")) ∧
    ((∃ plan, r.plan = .ok plan) ↔ ∃ numbers base, r.Accepts numbers base) ∧
    (∀ numbers base, r.Accepts numbers base →
      ∃ (c : Call Reg) (b : Builder) (program : Program),
        r.routine.call? (numbers.map Reg.mk) = some c ∧
        (Build.routine r.routine (numbers.map Reg.mk) : Build Unit Unit).perform
          (.startingAt base) () = (.ok (), b, ()) ∧
        resolve b.code.toList = .ok program ∧
        env.Delivers files r.output
          (program.text { comments := !r.noComments, compact := r.compact })
          (run env files words) ∧
        ∀ style, ∃ ops, readOps (program.text style).toList = .ok ops ∧
          ∀ rs : Registers, Store.Words rs.contents → rs.contents ⟨max base 1⟩ = [] →
            HaltsProperly ops rs (c.effect rs.contents)) ∧
    ((¬ ∃ numbers base, r.Accepts numbers base) → ∃ context cause, r.FirstFault context cause) ∧
    (∀ context cause, r.FirstFault context cause →
      run env files words =
        { status := 1
          stdout := #[]
          stderr := "Error: " ++ context ++ "\n\nCaused by:\n    " ++ cause ++ "\n"
          files }) := by
  obtain ⟨args, hsorts, hmatches⟩ := Request.matches_of_ofWords h
  refine ⟨⟨args, hsorts, hmatches⟩, hmatches.compact.trans (hsorts.mem_flags_iff .compact),
    hmatches.noComments.trans (hsorts.mem_flags_iff .noComments), ⟨?_, ?_⟩, ?_, ?_, ?_⟩
  · rintro ⟨plan, hplan⟩
    rcases r.accepts_or_firstFault with haccepts | ⟨context, cause, hfault⟩
    · exact haccepts
    · obtain ⟨f, herror, -⟩ := hfault.plan_eq
      rw [hplan] at herror
      cases herror
  · rintro ⟨numbers, base, haccepts⟩
    obtain ⟨c, b, program, -, -, -, -, hplan⟩ := haccepts.exists_program
    exact ⟨_, hplan⟩
  · intro numbers base haccepts
    obtain ⟨c, b, program, hcall, hperform, hresolve, heffect, hplan⟩ := haccepts.exists_program
    refine ⟨c, b, program, hcall, hperform, hresolve, ?_, ?_⟩
    · rw [run_of_plan h hplan]
      exact Plan.delivers (p := { code := b.code.toList, style := r.style, output := r.output })
        henv files hresolve
    · intro style
      exact ⟨program.ops, readOps_text_of_resolve hresolve style, heffect⟩
  · exact r.accepts_or_firstFault.resolve_left
  · intro context cause hfault
    obtain ⟨f, hplan, hreport⟩ := hfault.plan_eq
    rw [run_of_failure h hplan, hreport]

/-- A directory without directories in it. -/
def plainDirectory : Environment String where
  create path files :=
    if path = "." ∨ path = ".." then (.error (.other "Is a directory (os error 21)"), files)
    else if path = "" ∨ '/' ∈ path.toList then
      (.error (.other "No such file or directory (os error 2)"), files)
    else (.ok (path, .keeping), files.write path #[])

theorem plainDirectory_lawful : plainDirectory.Lawful where
  create_ok h := by
    unfold plainDirectory at h
    dsimp only at h
    split at h
    · cases h
    · split at h <;> cases h
      rfl
  create_error h := by
    unfold plainDirectory at h
    dsimp only at h
    split at h
    · cases h
      rfl
    · split at h <;> cases h
      rfl

/-- A routine that is written on a single line to a file, in the stead of what the file held; and a
request for the same file that is refused over its first register though its second one is wrong
too, and leaves the file alone. -/
theorem command_end_to_end_reverse :
    let files : Files String := fun path => if path = "out.txt" then some #[0x31, 0x23] else none
    (∃ program : Program,
      run plainDirectory files ["reverse", "--temps=5", "+2", "--compact", "003", "-oout.txt"] =
          { status := 0
            stdout := #[]
            stderr := ""
            files := files.write "out.txt" (program.text { compact := true }).toUTF8.data } ∧
        ∃ ops, readOps (program.text { compact := true }).toList = .ok ops ∧
          ∀ rs : Registers, Store.Words rs.contents → rs.contents ⟨5⟩ = [] →
            HaltsProperly ops rs ((Call.reverse ⟨2⟩ ⟨3⟩).effect rs.contents)) ∧
      run plainDirectory files ["copy", "7", "7", "--temps", "7", "-oout.txt"] =
        { status := 1
          stdout := #[]
          stderr := "Error: Failed to generate `copy`\n\nCaused by:\n" ++
            "    Register 7 lies in the temporary range and was not allocated\n"
          files } := by
  intro files
  constructor
  · let r : Request := {
      routine := .reverse, registers := ["+2", "003"], temps := some "5", compact := true,
      output := "out.txt" }
    have hwords : Request.ofWords
        ["reverse", "--temps=5", "+2", "--compact", "003", "-oout.txt"] = .ok r := by
      decide +kernel
    have hnumerals : IsNumeral "+2" 2 ∧ IsNumeral "003" 3 ∧ IsNumeral "5" 5 := by
      refine ⟨⟨?_, List.all_eq_true.1 ?_, ?_, ?_⟩, ⟨?_, List.all_eq_true.1 ?_, ?_, ?_⟩,
        ⟨?_, List.all_eq_true.1 ?_, ?_, ?_⟩⟩ <;> decide
    obtain ⟨htwo, hthree, hfive⟩ := hnumerals
    have haccepts : r.Accepts [2, 3] 5 :=
      { registers := .cons htwo (.cons hthree .nil)
        temps := .inr ⟨"5", rfl, hfive⟩
        arity := rfl
        inRange := by decide
        distinct := by decide }
    have hcreate : plainDirectory.create "out.txt" files =
        (.ok ("out.txt", .keeping), files.write "out.txt" #[]) := by
      simp [plainDirectory]
    obtain ⟨c, b, program, hcall, -, -, hdelivers, hread⟩ :=
      (command_end_to_end plainDirectory_lawful files hwords).2.2.2.2.1 [2, 3] 5 haccepts
    obtain rfl := Option.some.inj hcall
    refine ⟨program, ?_, hread _⟩
    generalize run plainDirectory files _ = outcome at hdelivers
    cases hdelivers with
    | printed hpath => exact absurd hpath (by decide)
    | notPrinted hpath => exact absurd hpath (by decide)
    | notOpened _ hopen =>
      rw [hcreate] at hopen
      cases hopen
    | saved _ hopen =>
      rw [hcreate] at hopen
      cases hopen
      rfl
    | notSaved _ hopen hverdict =>
      rw [hcreate] at hopen
      cases hopen
      cases hverdict
  · let r : Request := {
      routine := .copy, registers := ["7", "7"], temps := some "7", output := "out.txt" }
    have hwords : Request.ofWords ["copy", "7", "7", "--temps", "7", "-oout.txt"] = .ok r := by
      decide +kernel
    have hseven : IsNumeral "7" 7 :=
      ⟨by decide, List.all_eq_true.1 (by decide), by decide, by decide⟩
    have hreads : r.Reads [7, 7] 7 :=
      ⟨.cons hseven (.cons hseven .nil), .inr ⟨"7", rfl, hseven⟩⟩
    have hfault := Request.FirstFault.register hreads rfl (.reserved (by decide))
    exact (command_end_to_end plainDirectory_lawful files hwords).2.2.2.2.2.2 _ _ hfault

end CommandLine

end TextMachine
