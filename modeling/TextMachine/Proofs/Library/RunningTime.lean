import TextMachine.Proofs.Library.Effects

/-!
# How long the routines of the library run

The routines without a loop inside a loop take a time that is linear in the lengths of their
operands; to reverse a register takes quadratic time, since for each symbol it moves all of the
target twice. `Call.time` gives the exact number of steps, and so it also says what becomes of a
call on a machine that has only so many steps left: `library_running_times`.
-/

namespace TextMachine

/-- An operand lies between the first register and the temporaries. -/
theorem Invocation.Valid.one_le {base : Nat} {i : Invocation} (h : i.Valid base) : 1 ≤ base := by
  have hoperand : ∃ r, r ∈ i.call.operands := by
    cases i.call <;> exact ⟨_, List.mem_cons_self⟩
  obtain ⟨r, hr⟩ := hoperand
  obtain ⟨hpos, hlt⟩ := h.2 r hr
  omega

open Invocation in
/-- **The running times of the routines are exact.** A single call on a new builder succeeds, its
code resolves, and on words and with the temporary empty the program takes `Call.time` steps before
it halts properly: it does with that many steps and with more, and not with fewer. On a machine that
has made some steps already it halts properly, with its steps counted, exactly if they stay within
the limit. Otherwise it uses the limit up. -/
theorem library_running_times {base : Nat} {i : Invocation} (hvalid : i.Valid base) :
    ∃ b loaded, (i.build : Build Unit Unit).perform (.startingAt base) () = (.ok (), b, ()) ∧
      resolve b.code.toList = .ok loaded ∧
        ∀ m : Progress, Store.Words m.registers.contents → m.registers.contents ⟨base⟩ = [] →
          let time := i.call.time m.registers.contents
          (∀ n, time ≤ n → ∃ c, Config.runFor loaded.ops.toArray n { m with pc := 0 } =
            (.proper, c) ∧ c.steps = m.steps + time) ∧
          (∀ n, n < time → ∃ c, Config.runFor loaded.ops.toArray n { m with pc := 0 } =
            (.stepLimit, c) ∧ c.steps = m.steps + n) ∧
          (∀ hsteps : m.steps ≤ Machine.stepLimit,
            ((∃ m', Machine.run ⟨m, hsteps⟩ loaded.ops = (.proper, m') ∧
                m'.steps = m.steps + time) ↔ m.steps + time ≤ Machine.stepLimit) ∧
            (Machine.stepLimit < m.steps + time →
              ∃ m', Machine.run ⟨m, hsteps⟩ loaded.ops = (.stepLimit, m') ∧
                m'.steps = Machine.stepLimit)) := by
  have hmax : max base 1 = base := Nat.max_eq_left hvalid.one_le
  obtain ⟨finished, loaded, hcompile, hresolve⟩ :=
    Structured.exists_compile_resolve i.structured base
      (by rw [hmax]; exact hvalid.allowed hvalid.one_le)
      (noSelfJump_structured i _)
  obtain ⟨b, hperform, rfl⟩ := Structured.perform_of_compile hcompile
  rw [build_structured] at hperform
  refine ⟨b, loaded, hperform, hresolve, ?_⟩
  intro m hwords htemp time
  have hfinishes := hvalid.finishesIn (n := 0) hwords htemp
  rw [← hmax] at hfinishes
  have hafter := hfinishes.after?_of_compile hcompile hresolve
  refine ⟨?_, ?_, ?_⟩
  · intro n hn
    obtain ⟨c, hrun, hsteps, -⟩ := Config.runFor_of_after?_length hafter hn
    exact ⟨c, hrun, hsteps⟩
  · intro n hn
    exact Config.runFor_of_lt_after? (c := { m with pc := 0 }) hafter hn
  · intro hsteps
    refine ⟨⟨?_, Machine.run_of_after?_le (m := ⟨m, hsteps⟩) hafter⟩,
      Machine.run_of_lt_after? (m := ⟨m, hsteps⟩) hafter⟩
    -- a machine that halts properly has not used up its limit before
    rintro ⟨m', hproper, -⟩
    by_contra hlimit
    obtain ⟨m'', hstopped, -⟩ :=
      Machine.run_of_lt_after? (m := ⟨m, hsteps⟩) hafter (Nat.not_le.1 hlimit)
    rw [hproper] at hstopped
    cases hstopped

/-- Registers that are given words hold words, and the others hold nothing. -/
theorem words_ofList {texts : List (Reg × List Char)} (h : ∀ e ∈ texts, IsWord e.2) :
    Store.Words (Registers.ofList texts).contents := by
  have hempty : Store.Words ({} : Registers).contents := by
    intro r
    rw [Registers.contents, Registers.queue_empty, Queue.toList_empty]
    exact .nil
  unfold Registers.ofList
  generalize ({} : Registers) = rs at hempty
  induction texts generalizing rs with
  | nil => exact hempty
  | cons e rest ih =>
    refine ih (fun f hf => h f (List.mem_cons_of_mem e hf)) (rs.set e.1 (.ofList e.2)) ?_
    intro r
    rw [Registers.contents_set]
    split
    · rw [Queue.toList_ofList]
      exact h e List.mem_cons_self
    · exact hempty r

/-- The last step that is left is still made: to reverse two symbols in front of one takes 55. -/
theorem library_running_times_reverse : ∃ b loaded,
    ((Invocation.annotated (.reverse ⟨1⟩ ⟨2⟩)).build : Build Unit Unit).perform (.startingAt 3) () =
      (.ok (), b, ()) ∧ resolve b.code.toList = .ok loaded ∧
        (∃ m', Machine.run ⟨⟨.ofList [(⟨1⟩, ['1', '#']), (⟨2⟩, ['1'])], 999945⟩, by decide⟩
          loaded.ops = (.proper, m') ∧ m'.steps = 1000000) ∧
        (∃ m', Machine.run ⟨⟨.ofList [(⟨1⟩, ['1', '#']), (⟨2⟩, ['1'])], 999946⟩, by decide⟩
          loaded.ops = (.stepLimit, m') ∧ m'.steps = 1000000) := by
  have hvalid : (Invocation.annotated (.reverse ⟨1⟩ ⟨2⟩)).Valid 3 := by
    simp [Invocation.Valid, Invocation.call, Call.operands]
  have hwords : Store.Words (Registers.ofList [(⟨1⟩, ['1', '#']), (⟨2⟩, ['1'])]).contents := by
    apply words_ofList
    simp [IsWord]
  obtain ⟨b, loaded, hperform, hresolve, hruns⟩ := library_running_times hvalid
  refine ⟨b, loaded, hperform, hresolve, ?_, ?_⟩
  · exact (((hruns ⟨_, 999945⟩ hwords rfl).2.2 (by decide)).1).2 (by decide +kernel)
  · exact ((hruns ⟨_, 999946⟩ hwords rfl).2.2 (by decide)).2 (by decide +kernel)

end TextMachine
