import TextMachine.CommandLine.Arguments
import TextMachine.Proofs.Resolution.Positions

/-!
# What the words of a command line say

A grammar of command lines, given by its words (`Sorts`): which of them are operands, flags and
settings, and what the values of the settings are. A command line that makes a request is one of
this grammar, and the request asks for what its words say (`Request.matches_of_ofWords`). In
particular a flag is given by its word, anywhere before the end of the options
(`Sorts.mem_flags_iff`).
-/

namespace TextMachine.CommandLine

/-! ## Words -/

/-- An option begins with a dash and has more to it. -/
def IsOption (word : String) : Prop :=
  ∃ c rest, word.toList = '-' :: c :: rest

/-- The word for a flag. -/
def Flag.word : Flag → String
  | compact => "--compact"
  | noComments => "--no-comments"

/-- The words for a setting whose value is the next word. -/
def Setting.words : Setting → List String
  | output => ["--output", "-o"]
  | temps => ["--temps"]
  | logLevel => ["--log-level"]

/-- A setting and its value in one word. -/
inductive Setting.Joined : Setting → String → String → Prop
  | output (value : String) : Joined .output value ("--output=" ++ value)
  | temps (value : String) : Joined .temps value ("--temps=" ++ value)
  | logLevel (value : String) : Joined .logLevel value ("--log-level=" ++ value)
  | shortEquals (value : String) : Joined .output value ("-o=" ++ value)
  | short {value : String} {c : Char} {rest : List Char} (hvalue : value.toList = c :: rest)
      (hc : c ≠ '=') : Joined .output value ("-o" ++ value)

/-- The words of a command line, sorted. No option is the value of a setting, and all words after
`--` are operands. -/
inductive Sorts : List String → Arguments → Prop
  | nil : Sorts [] {}
  | terminator (rest : List String) : Sorts ("--" :: rest) { operands := rest }
  | operand {word : String} {rest : List String} {args : Arguments} (hword : ¬ IsOption word)
      (hrest : Sorts rest args) :
      Sorts (word :: rest) { args with operands := word :: args.operands }
  | flag (f : Flag) {rest : List String} {args : Arguments} (hrest : Sorts rest args) :
      Sorts (f.word :: rest) { args with flags := f :: args.flags }
  | setting {s : Setting} {word value : String} {rest : List String} {args : Arguments}
      (hword : word ∈ s.words) (hvalue : ¬ IsOption value) (hrest : Sorts rest args) :
      Sorts (word :: value :: rest) { args with settings := (s, some value) :: args.settings }
  | joined {s : Setting} {word value : String} {rest : List String} {args : Arguments}
      (hword : s.Joined value word) (hrest : Sorts rest args) :
      Sorts (word :: rest) { args with settings := (s, some value) :: args.settings }

/-- What a word looks like that was found to be something. -/
def Word.LooksLike (word : String) : Word → Prop
  | .operand => ¬ IsOption word
  | .terminator => word = "--"
  | .flag f => word = f.word
  | .setting s none => word ∈ s.words
  | .setting s (some value) => s.Joined value word

theorem isValueWord_iff {word : String} : isValueWord word = true ↔ ¬ IsOption word := by
  unfold isValueWord IsOption
  split <;> simp_all

/-- A long option is its name, or its name and the value behind an equals sign. -/
theorem looksLike_of_readLong {name word : String} {attached : Option String} {w : Word}
    (h : readLong name attached = .ok w) (hnone : attached = none → word = "--" ++ name)
    (hsome : ∀ value, attached = some value → word = "--" ++ name ++ "=" ++ value) :
    w.LooksLike word := by
  unfold readLong at h
  split at h <;> cases h
  · exact hnone rfl
  · exact hnone rfl
  all_goals
    cases attached with
    | none =>
      rw [hnone rfl]
      exact List.mem_cons_self
    | some value =>
      rw [hsome value rfl]
      constructor

theorem looksLike_of_readShort {letter : Char} {rest : List Char} {word : String} {w : Word}
    (h : readShort letter rest = .ok w) (hword : word.toList = '-' :: letter :: rest) :
    w.LooksLike word := by
  unfold readShort at h
  split at h <;> cases h
  next =>
    obtain rfl : word = "-o" := String.toList_inj.1 hword
    exact List.mem_cons_of_mem _ List.mem_cons_self
  next value =>
    obtain rfl : word = "-o=" ++ String.ofList value := by
      apply String.toList_inj.1
      simp [hword]
    exact .shortEquals _
  next rest hne heq =>
    obtain ⟨c, more, rfl⟩ := List.exists_cons_of_ne_nil hne
    obtain rfl : word = "-o" ++ String.ofList (c :: more) := by
      apply String.toList_inj.1
      simp [hword]
    refine .short String.toList_ofList ?_
    rintro rfl
    exact heq more rfl

/-- What a word is found to be, it looks like. -/
theorem looksLike_of_readWord {word : String} {w : Word} (h : readWord word = .ok w) :
    w.LooksLike word := by
  unfold readWord at h
  split at h
  next hword =>
    cases h
    exact String.toList_inj.1 hword
  next text _ hword =>
    -- the name of the option ends at the first equals sign
    have htext := List.takeWhile_append_dropWhile (p := (· ≠ '=')) (l := text)
    dsimp only at h
    split at h
    next hvalue =>
      refine looksLike_of_readLong h (fun _ => ?_) nofun
      rw [hvalue, List.append_nil] at htext
      rw [htext]
      apply String.toList_inj.1
      simp [hword]
    next c value hvalue =>
      refine looksLike_of_readLong h nofun ?_
      rintro _ ⟨⟩
      have hc : c = '=' := by
        have hhead := List.head?_dropWhile_not (· ≠ '=') text
        rw [hvalue] at hhead
        simpa using hhead
      rw [hvalue, hc] at htext
      apply String.toList_inj.1
      rw [hword]
      nth_rewrite 1 [← htext]
      simp
  next hword => exact looksLike_of_readShort h hword
  next hlong hshort =>
    cases h
    rintro ⟨c, rest, hoption⟩
    exact hshort c rest hoption

/-! ## Whole command lines -/

/-- Words that are sorted with no value missing are sorted as the grammar says. -/
theorem sorts_of_ofWords {words : List String} {args : Arguments}
    (h : Arguments.ofWords words = .ok args) (hvalues : ∀ e ∈ args.settings, e.2.isSome = true) :
    Sorts words args := by
  fun_induction Arguments.ofWords words generalizing args with
  | case1 =>
    cases h
    exact .nil
  | case2 word rest ihRest ihTail =>
    obtain ⟨w, hword, h⟩ := bind_eq_ok_iff.1 h
    have hlooks := looksLike_of_readWord hword
    cases w with
    | terminator =>
      cases h
      obtain rfl : word = "--" := hlooks
      exact .terminator rest
    | operand =>
      obtain ⟨later, hrest, ⟨⟩⟩ := bind_eq_ok_iff.1 h
      exact .operand hlooks (ihRest hrest hvalues)
    | flag f =>
      obtain ⟨later, hrest, ⟨⟩⟩ := bind_eq_ok_iff.1 h
      obtain rfl : word = f.word := hlooks
      exact .flag f (ihRest hrest hvalues)
    | setting s attached =>
      cases attached with
      | some value =>
        obtain ⟨later, hrest, ⟨⟩⟩ := bind_eq_ok_iff.1 h
        exact .joined hlooks (ihRest hrest (List.forall_mem_cons.1 hvalues).2)
      | none =>
        cases rest with
        | nil =>
          cases h
          cases hvalues (s, none) List.mem_cons_self
        | cons value more =>
          by_cases hvalue : isValueWord value = true
          · simp only [hvalue, if_true] at h
            obtain ⟨later, hmore, ⟨⟩⟩ := bind_eq_ok_iff.1 h
            exact .setting hlooks (isValueWord_iff.1 hvalue)
              (ihTail.1 hmore (List.forall_mem_cons.1 hvalues).2)
          · simp only [hvalue] at h
            obtain ⟨later, -, ⟨⟩⟩ := bind_eq_ok_iff.1 h
            cases hvalues (s, none) List.mem_cons_self

/-- A word that neither ends the options nor is a flag. -/
def IsPlain (word : String) : Prop :=
  word ≠ "--" ∧ ∀ f : Flag, f.word ≠ word

theorem isPlain_of_not_isOption {word : String} (h : ¬ IsOption word) : IsPlain word := by
  constructor
  · rintro rfl
    exact h ⟨_, _, rfl⟩
  · rintro f rfl
    cases f <;> exact h ⟨_, _, rfl⟩

theorem isPlain_of_mem_words {s : Setting} {word : String} (h : word ∈ s.words) :
    IsPlain word := by
  have hall : ∀ s : Setting, ∀ word ∈ s.words,
      word ≠ "--" ∧ Flag.compact.word ≠ word ∧ Flag.noComments.word ≠ word := by
    intro s
    cases s <;> decide
  obtain ⟨hend, hcompact, hcomments⟩ := hall s word h
  refine ⟨hend, fun f => ?_⟩
  cases f with
  | compact => exact hcompact
  | noComments => exact hcomments

theorem isPlain_of_joined {s : Setting} {value word : String} (h : s.Joined value word) :
    IsPlain word := by
  constructor
  · intro heq
    have hchars := congrArg String.toList heq
    cases h <;> simp at hchars
  · intro f heq
    have hchars := congrArg String.toList heq
    cases h <;> cases f <;> simp [Flag.word] at hchars

theorem mem_takeWhile_of_isPlain {word : String} (h : IsPlain word) (f : Flag)
    (rest : List String) :
    f.word ∈ (word :: rest).takeWhile (· ≠ "--") ↔ f.word ∈ rest.takeWhile (· ≠ "--") := by
  rw [List.takeWhile_cons_of_pos (by simpa using h.1), List.mem_cons, or_iff_right (h.2 f)]

/-- The flags of a command line are those that have their words before the end of the options. -/
theorem Sorts.mem_flags_iff {words : List String} {args : Arguments} (h : Sorts words args)
    (f : Flag) : f ∈ args.flags ↔ f.word ∈ words.takeWhile (· ≠ "--") := by
  induction h with
  | nil => exact ⟨nofun, nofun⟩
  | terminator rest => exact ⟨nofun, nofun⟩
  | operand hword _ ih => rw [mem_takeWhile_of_isPlain (isPlain_of_not_isOption hword), ← ih]
  | flag g _ ih =>
    have hword : g.word ≠ "--" := by cases g <;> decide
    have hinjective : f.word = g.word ↔ f = g := by cases f <;> cases g <;> decide
    rw [List.takeWhile_cons_of_pos (by simpa using hword), List.mem_cons, List.mem_cons, hinjective,
      ih]
  | setting hword hvalue _ ih =>
    rw [mem_takeWhile_of_isPlain (isPlain_of_mem_words hword),
      mem_takeWhile_of_isPlain (isPlain_of_not_isOption hvalue), ← ih]
  | joined hword _ ih => rw [mem_takeWhile_of_isPlain (isPlain_of_joined hword), ← ih]

/-- A request asks for what the words say: the operands are the name of the routine and the
registers, and without a word about the output it is the standard output. -/
structure Request.Matches (r : Request) (args : Arguments) : Prop where
  operands : args.operands = r.routine.name :: r.registers
  compact : r.compact = true ↔ .compact ∈ args.flags
  noComments : r.noComments = true ↔ .noComments ∈ args.flags
  temps : ∀ word, r.temps = some word ↔ (.temps, some word) ∈ args.settings
  output : (.output, some r.output) ∈ args.settings ∨
    r.output = "-" ∧ ∀ path, (.output, some path) ∉ args.settings

/-- A value is that of a setting if it stands beside it. -/
theorem Arguments.value?_eq_some_iff {args : Arguments} (hkeys : (args.settings.map (·.1)).Nodup)
    (s : Setting) (value : String) :
    args.value? s = some value ↔ (s, some value) ∈ args.settings := by
  rw [Arguments.value?, Option.join_eq_some_iff]
  exact ⟨mem_of_lookup_eq_some, lookup_eq_some_of_mem hkeys⟩

theorem matches_of_request {args : Arguments} {r : Request} (h : args.request = .ok r) :
    (∀ e ∈ args.settings, e.2.isSome = true) ∧ r.Matches args := by
  unfold Arguments.request at h
  split at h
  next name reg regs hoperands =>
    split at h
    next routine hroutine =>
      split at h
      next hwell =>
        cases h
        obtain ⟨-, hkeys, hvalues⟩ := hwell
        have hvalue := args.value?_eq_some_iff hkeys
        refine ⟨List.all_eq_true.1 hvalues, ?_, ?_, ?_, hvalue .temps, ?_⟩
        · rw [hoperands, Routine.name_of_ofName?_eq_some hroutine]
        · exact decide_eq_true_iff
        · exact decide_eq_true_iff
        · cases houtput : args.value? .output with
          | some path => exact .inl ((hvalue .output path).1 houtput)
          | none =>
            refine .inr ⟨rfl, fun path hpath => ?_⟩
            rw [(hvalue .output path).2 hpath] at houtput
            cases houtput
      next => cases h
    next => cases h
  next => cases h

/-- A command line that makes a request is one of the grammar, and the request asks for what its
words say. -/
theorem Request.matches_of_ofWords {words : List String} {r : Request} (h : ofWords words = .ok r) :
    ∃ args, Sorts words args ∧ r.Matches args := by
  obtain ⟨args, hargs, hrequest⟩ := bind_eq_ok_iff.1 h
  obtain ⟨hvalues, hmatches⟩ := matches_of_request hrequest
  exact ⟨args, sorts_of_ofWords hargs hvalues, hmatches⟩

end TextMachine.CommandLine
