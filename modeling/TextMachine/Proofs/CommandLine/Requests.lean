import Mathlib.Data.List.Forall2
import TextMachine.CommandLine.Command
import TextMachine.Proofs.Build.Operands
import TextMachine.Proofs.Build.Temporaries
import TextMachine.Proofs.CommandLine.Numerals

/-!
# Requests

Whether what a command line asks for can be had.

A request is accepted if its words spell numbers and its registers fit its routine
(`Request.Accepts`). Of any other, `Request.FirstFault` tells the first fault, with the sentence and
the cause that are reported: words that are no numbers, registers first and from left to right, then
the number of registers, then each register in turn. Every request is one or the other
(`Request.accepts_or_firstFault`), and one with a fault is not planned but fails with a report of it
(`Request.FirstFault.plan_eq`).
-/

namespace TextMachine.CommandLine

namespace Request

/-! ## What can be had -/

/-- The words of a request all spell numbers: these registers, and this first temporary. -/
structure Reads (r : Request) (numbers : List Nat) (base : Nat) : Prop where
  registers : List.Forall₂ IsNumeral r.registers numbers
  temps : (r.temps = none ∧ base = 1000) ∨ ∃ word, r.temps = some word ∧ IsNumeral word base

/-- A request that can be fulfilled: as many registers as the routine takes, all of them different,
at least 1 and below the temporaries. -/
structure Accepts (r : Request) (numbers : List Nat) (base : Nat) : Prop extends
    r.Reads numbers base where
  arity : numbers.length = r.routine.arity
  inRange : ∀ n ∈ numbers, 1 ≤ n ∧ n < max base 1
  distinct : numbers.Nodup

end Request

/-- What is held against the first of some registers with which something is wrong, when the
temporaries begin at `base`: that it does not exist, else that it is a temporary, else that it is
also one of the registers after it. -/
inductive BadRegister (base : Nat) : List Nat → String → Prop
  | zero {rest : List Nat} :
      BadRegister base (0 :: rest) "Invalid register index 0, registers are numbered from 1"
  | reserved {n : Nat} {rest : List Nat} (hreserved : max base 1 ≤ n) :
      BadRegister base (n :: rest)
        ("Register " ++ toString n ++ " lies in the temporary range and was not allocated")
  | aliased {n : Nat} {rest : List Nat} (hrange : 1 ≤ n ∧ n < max base 1) (hmem : n ∈ rest) :
      BadRegister base (n :: rest)
        ("Register " ++ toString n ++ " passed twice, operands must be distinct")
  | later {n : Nat} {rest : List Nat} {cause : String} (hrange : 1 ≤ n ∧ n < max base 1)
      (hnew : n ∉ rest) (hlater : BadRegister base rest cause) : BadRegister base (n :: rest) cause

/-- The first fault of a request: the sentence that says what failed, and the cause. -/
inductive Request.FirstFault (r : Request) : String → String → Prop
  | registerWord {before after : List String} {word cause : String} {numbers : List Nat}
      (hwords : r.registers = before ++ word :: after)
      (hbefore : List.Forall₂ IsNumeral before numbers) (hword : Misspelt word cause) :
      FirstFault r ("Bad register number: " ++ word) cause
  | tempsWord {word cause : String} {numbers : List Nat}
      (hregisters : List.Forall₂ IsNumeral r.registers numbers) (htemps : r.temps = some word)
      (hword : Misspelt word cause) : FirstFault r ("Bad register number: " ++ word) cause
  | arity {numbers : List Nat} {base : Nat} (hreads : r.Reads numbers base)
      (harity : numbers.length ≠ r.routine.arity) :
      FirstFault r ("Failed to generate `" ++ r.routine.name ++ "`")
        ("`" ++ r.routine.name ++ "` takes " ++ toString r.routine.arity ++ " register(s), got " ++
          toString numbers.length)
  | register {numbers : List Nat} {base : Nat} {cause : String} (hreads : r.Reads numbers base)
      (harity : numbers.length = r.routine.arity) (hregister : BadRegister base numbers cause) :
      FirstFault r ("Failed to generate `" ++ r.routine.name ++ "`") cause

/-- All of some words spell numbers, or there is a first that does not. -/
theorem words_cases (words : List String) :
    (∃ numbers, List.Forall₂ IsNumeral words numbers) ∨
      ∃ before word after numbers cause, words = before ++ word :: after ∧
        List.Forall₂ IsNumeral before numbers ∧ Misspelt word cause := by
  induction words with
  | nil => exact .inl ⟨[], .nil⟩
  | cons word rest ih =>
    rcases isNumeral_or_misspelt word with ⟨n, hword⟩ | ⟨cause, hword⟩
    · rcases ih with ⟨numbers, hrest⟩ | ⟨before, bad, after, numbers, cause, rfl, hbefore, hbad⟩
      · exact .inl ⟨n :: numbers, .cons hword hrest⟩
      · exact .inr ⟨word :: before, bad, after, n :: numbers, cause, rfl, .cons hword hbefore, hbad⟩
    · exact .inr ⟨[], word, rest, [], cause, rfl, .nil, hword⟩

/-- All of some registers are usable, or there is a first that is not. -/
theorem registers_cases (base : Nat) (numbers : List Nat) :
    ((∀ n ∈ numbers, 1 ≤ n ∧ n < max base 1) ∧ numbers.Nodup) ∨
      ∃ cause, BadRegister base numbers cause := by
  induction numbers with
  | nil => exact .inl ⟨nofun, .nil⟩
  | cons n rest ih =>
    by_cases hzero : n = 0
    · subst hzero
      exact .inr ⟨_, .zero⟩
    by_cases hreserved : max base 1 ≤ n
    · exact .inr ⟨_, .reserved hreserved⟩
    have hrange : 1 ≤ n ∧ n < max base 1 := ⟨Nat.one_le_iff_ne_zero.2 hzero, Nat.not_le.1 hreserved⟩
    by_cases hmem : n ∈ rest
    · exact .inr ⟨_, .aliased hrange hmem⟩
    rcases ih with ⟨hrest, hnodup⟩ | ⟨cause, hlater⟩
    · exact .inl ⟨List.forall_mem_cons.2 ⟨hrange, hrest⟩, List.nodup_cons.2 ⟨hmem, hnodup⟩⟩
    · exact .inr ⟨cause, .later hrange hmem hlater⟩

namespace Request

/-- The words of a request spell numbers, or there is a first that does not. -/
theorem reads_or_firstFault (r : Request) :
    (∃ numbers base, r.Reads numbers base) ∨ ∃ context cause, r.FirstFault context cause := by
  rcases words_cases r.registers with ⟨numbers, hregisters⟩ | h
  · cases htemps : r.temps with
    | none => exact .inl ⟨numbers, 1000, hregisters, .inl ⟨htemps, rfl⟩⟩
    | some word =>
      rcases isNumeral_or_misspelt word with ⟨base, hword⟩ | ⟨cause, hword⟩
      · exact .inl ⟨numbers, base, hregisters, .inr ⟨word, htemps, hword⟩⟩
      · exact .inr ⟨_, cause, .tempsWord hregisters htemps hword⟩
  · obtain ⟨before, word, after, numbers, cause, hwords, hbefore, hword⟩ := h
    exact .inr ⟨_, cause, .registerWord hwords hbefore hword⟩

/-- A request can be fulfilled or has a first fault. -/
theorem accepts_or_firstFault (r : Request) :
    (∃ numbers base, r.Accepts numbers base) ∨ ∃ context cause, r.FirstFault context cause := by
  rcases r.reads_or_firstFault with ⟨numbers, base, hreads⟩ | h
  · by_cases harity : numbers.length = r.routine.arity
    · rcases registers_cases base numbers with ⟨hrange, hdistinct⟩ | ⟨cause, hregister⟩
      · exact .inl ⟨numbers, base, hreads, harity, hrange, hdistinct⟩
      · exact .inr ⟨_, cause, .register hreads harity hregister⟩
    · exact .inr ⟨_, _, .arity hreads harity⟩
  · exact .inr h

end Request

/-! ## What is planned -/

theorem numberOfWord_of_isNumeral {word : String} {n : Nat} (h : IsNumeral word n) :
    numberOfWord word = .ok n := by
  rw [numberOfWord, readNumber_of_isNumeral h]
  rfl

theorem numberOfWord_of_misspelt {word cause : String} (h : Misspelt word cause) :
    ∃ e, numberOfWord word = .error (.badNumber word e) ∧ e.message = cause := by
  obtain ⟨e, hread, hcause⟩ := readNumber_of_misspelt h
  exact ⟨e, by rw [numberOfWord, hread]; rfl, hcause⟩

theorem mapM_numberOfWord_of_isNumeral {words : List String} {numbers : List Nat}
    (h : List.Forall₂ IsNumeral words numbers) : words.mapM numberOfWord = .ok numbers := by
  induction h with
  | nil => rfl
  | cons hword _ ih =>
    rw [List.mapM_cons, numberOfWord_of_isNumeral hword, ih]
    rfl

/-- Words are read from left to right, up to the first that is no number. -/
theorem mapM_numberOfWord_of_misspelt {before : List String} {numbers : List Nat} {word : String}
    {f : Failure} (after : List String) (hbefore : List.Forall₂ IsNumeral before numbers)
    (hword : numberOfWord word = .error f) :
    (before ++ word :: after).mapM numberOfWord = .error f := by
  induction hbefore with
  | nil =>
    rw [List.nil_append, List.mapM_cons, hword]
    rfl
  | cons hfirst _ ih =>
    rw [List.cons_append, List.mapM_cons, numberOfWord_of_isNumeral hfirst, ih]
    rfl

theorem reserves_startingAt {base : Nat} {r : Reg} :
    (Pool.startingAt base).Reserves r ↔ max base 1 ≤ r.index :=
  (Pool.startingAt_filledTo base).reserves_iff r

theorem usable_iff {base n : Nat} :
    n ≠ 0 ∧ ¬ (Pool.startingAt base).Reserves ⟨n⟩ ↔ 1 ≤ n ∧ n < max base 1 := by
  rw [reserves_startingAt, Nat.not_le, Nat.one_le_iff_ne_zero]

/-- A bad register is the first fault of the operands. -/
theorem BadRegister.head?_operandFaults {base : Nat} {numbers : List Nat} {cause : String}
    (h : BadRegister base numbers cause) :
    ∃ e, ((Pool.startingAt base).operandFaults (numbers.map Reg.mk)).head? = some e ∧
      e.message = cause := by
  induction h with
  | zero => exact ⟨.zeroRegister, rfl, rfl⟩
  | @reserved n rest hreserved =>
    have hzero : n ≠ 0 := by omega
    refine ⟨.reserved ⟨n⟩, ?_, rfl⟩
    simp [Pool.operandFaults, reserves_startingAt, hzero, hreserved]
  | @aliased n rest hrange hmem =>
    refine ⟨.aliased ⟨n⟩, ?_, rfl⟩
    rw [List.map_cons, Pool.operandFaults_cons_of_usable (usable_iff.2 hrange),
      if_pos (List.mem_map_of_mem hmem)]
    rfl
  | @later n rest cause hrange hnew _ ih =>
    rw [List.map_cons, Pool.operandFaults_cons_of_usable (usable_iff.2 hrange), if_neg ?_]
    · exact ih
    · simpa using hnew

namespace Request

variable {r : Request} {numbers : List Nat} {base : Nat}

theorem Reads.base_eq (h : r.Reads numbers base) : r.base = .ok base := by
  unfold Request.base
  rcases h.temps with ⟨hnone, rfl⟩ | ⟨word, hsome, hword⟩
  · rw [hnone]
    rfl
  · rw [hsome]
    exact numberOfWord_of_isNumeral hword

/-- What is planned once all words are numbers. -/
theorem Reads.plan_eq (h : r.Reads numbers base) :
    r.plan =
      match (Build.routine r.routine (numbers.map Reg.mk) : Build Unit Unit).perform
          (.startingAt base) () with
      | (.error e, _) => .error (.build r.routine e)
      | (.ok (), b, _) => .ok { code := b.code.toList, style := r.style, output := r.output } := by
  unfold Request.plan
  rw [mapM_numberOfWord_of_isNumeral h.registers, h.base_eq]
  rfl

/-- A request with a fault is not planned, and the failure reports that fault. -/
theorem FirstFault.plan_eq {context cause : String} (h : r.FirstFault context cause) :
    ∃ f, r.plan = .error f ∧
      f.report = "Error: " ++ context ++ "\n\nCaused by:\n    " ++ cause ++ "\n" := by
  cases h with
  | @registerWord before after word cause _ hwords hbefore hword =>
    obtain ⟨e, hnumber, rfl⟩ := numberOfWord_of_misspelt hword
    refine ⟨.badNumber word e, ?_, failureText_single _ _⟩
    rw [plan, hwords, mapM_numberOfWord_of_misspelt after hbefore hnumber]
    rfl
  | @tempsWord word cause _ hregisters htemps hword =>
    obtain ⟨e, hnumber, rfl⟩ := numberOfWord_of_misspelt hword
    refine ⟨.badNumber word e, ?_, failureText_single _ _⟩
    rw [plan, mapM_numberOfWord_of_isNumeral hregisters, Request.base, htemps]
    show (numberOfWord word >>= _) = _
    rw [hnumber]
    rfl
  | @arity numbers base hreads harity =>
    refine ⟨.build r.routine (.arity r.routine numbers.length), ?_, failureText_single _ _⟩
    have hfault : ((Pool.startingAt base).routineFaults r.routine (numbers.map Reg.mk)).head? =
        some (.arity r.routine numbers.length) := by
      simp [Pool.routineFaults, harity]
    rw [hreads.plan_eq, Build.perform_routine_of_fault rfl hfault]
  | @register numbers base cause hreads harity hregister =>
    obtain ⟨e, hhead, rfl⟩ := hregister.head?_operandFaults
    refine ⟨.build r.routine e, ?_, failureText_single _ _⟩
    have hfault : ((Pool.startingAt base).routineFaults r.routine (numbers.map Reg.mk)).head? =
        some e := by
      rw [Pool.routineFaults, List.length_map, if_pos harity]
      exact hhead
    rw [hreads.plan_eq, Build.perform_routine_of_fault rfl hfault]

end Request

end TextMachine.CommandLine
