import TextMachine.Reading
import TextMachine.Proofs.Resolution.RoundTrip
import TextMachine.Proofs.Text.Lines

/-!
# Reading what was written

However a program is written, the reader is left with the same code: the words of the operations,
one after another (`codeOf_characters`). No text of a comment gets into it, since the lines that do
not begin with `;` are the words.

In the code nothing separates a word from the next one but the change from `#` to `1`. So the first
word is read as it was written exactly when no `#` follows it (`readWords_spelling_append_iff`), and
the whole code exactly when every operation after the first has an operand to begin its word with.
-/

namespace TextMachine

/-! ## The code of a text -/

/-- **Every style has the same code**: the words of the operations, one after another. -/
theorem codeOf_characters (p : Program) (style : Style) :
    codeOf (p.characters style) = p.ops.flatMap Op.spelling := by
  unfold codeOf
  cases h : style.compact with
  | false =>
    rw [(shows_characters p style h).annotated_lines.filter_head?, List.flatMap_def]
  | true =>
    -- the words are one line of code, which may be empty
    have hmem : ∀ c, ¬ (c = '1' ∨ c = '#') → c ∉ p.ops.flatMap Op.spelling := fun c hc hmem =>
      hc (symbol_of_mem_words p.ops hmem)
    have hsemi : (p.ops.flatMap Op.spelling).head? ≠ some ';' := fun hhead =>
      hmem ';' (by decide) (List.mem_of_mem_head? hhead)
    rw [characters_compact p h, lines_append_lineFeed (hmem '\n' (by decide)),
      dropReturn_of_not_mem (hmem '\r' (by decide)), List.filter_cons_of_pos (by simpa using hsemi)]
    exact List.append_nil _

/-! ## Words -/

theorem splitRun_replicate_append (c : Char) (n : Nat) (rest : List Char) :
    splitRun c (List.replicate n c ++ rest) =
      (List.replicate n c ++ (splitRun c rest).1, (splitRun c rest).2) := by
  have hrun : ∀ d ∈ List.replicate n c, (d == c) = true := by
    intro d hd
    rw [List.eq_of_mem_replicate hd, beq_self_eq_true]
  unfold splitRun
  rw [List.takeWhile_append_of_pos hrun, List.dropWhile_append_of_pos hrun]

theorem splitRun_of_head?_ne {c : Char} {text : List Char} (h : text.head? ≠ some c) :
    splitRun c text = ([], text) := by
  cases text with
  | nil => rfl
  | cons d rest =>
    have hne : ¬ (d == c) = true := by
      rw [beq_iff_eq]
      intro heq
      exact h (congrArg some heq)
    show ((d :: rest).takeWhile (· == c), (d :: rest).dropWhile (· == c)) = ([], d :: rest)
    rw [List.takeWhile_cons, if_neg hne, List.dropWhile_cons, if_neg hne]

/-- What stands between the `1` and the rest of a text that begins with a word. -/
theorem splitRun_spelling_append (op : Op) (rest : List Char) :
    splitRun '1' (op.spelling ++ rest) =
      (List.replicate op.operand '1', List.replicate op.opcode '#' ++ rest) := by
  have hhash : (List.replicate op.opcode '#' ++ rest).head? ≠ some '1' := by
    obtain ⟨k, hk⟩ := Nat.exists_eq_succ_of_ne_zero (Nat.ne_of_gt op.opcode_pos)
    rw [hk, List.replicate_succ, List.cons_append, List.head?_cons]
    decide
  unfold Op.spelling
  rw [List.append_assoc, splitRun_replicate_append, splitRun_of_head?_ne hhash, List.append_nil]

/-- The first word of a text that begins with the word of an operation has whatever `#` follows
besides. -/
theorem firstWord_spelling_append (op : Op) (rest : List Char) :
    firstWord (op.spelling ++ rest) = (op.operand, op.opcode + (splitRun '#' rest).1.length) := by
  unfold firstWord
  rw [splitRun_spelling_append, splitRun_replicate_append, List.length_append,
    List.length_replicate, List.length_replicate]

theorem afterWord_spelling_append (op : Op) (rest : List Char) :
    afterWord (op.spelling ++ rest) = (splitRun '#' rest).2 := by
  unfold afterWord
  rw [splitRun_spelling_append, splitRun_replicate_append]

/-- Reading code that begins with a word. -/
theorem readWords_spelling_append (op : Op) (rest : List Char) :
    readWords (op.spelling ++ rest) =
      match Op.ofWord? op.operand (op.opcode + (splitRun '#' rest).1.length) with
      | none => .error .badWord
      | some first => do return first :: (← readWords (splitRun '#' rest).2) := by
  have hne : ¬ (op.spelling ++ rest).isEmpty = true := by
    rw [List.isEmpty_iff, List.append_eq_nil_iff]
    intro h
    exact spelling_ne_nil op h.1
  rw [readWords, if_neg hne, firstWord_spelling_append, afterWord_spelling_append]
  cases Op.ofWord? op.operand (op.opcode + (splitRun '#' rest).1.length) <;> rfl

/-- A word is read as it was written exactly when no `#` follows it. -/
theorem readWords_spelling_append_iff {op : Op} {rest : List Char} {ops : List Op} :
    readWords (op.spelling ++ rest) = .ok (op :: ops) ↔
      rest.head? ≠ some '#' ∧ readWords rest = .ok ops := by
  rw [readWords_spelling_append]
  by_cases hhead : rest.head? = some '#'
  · -- with more `#` behind it the first word is another operation's, or nobody's
    obtain ⟨tail, rfl⟩ : ∃ tail, rest = '#' :: tail := List.head?_eq_some_iff.1 hhead
    refine iff_of_false ?_ (fun h => h.1 hhead)
    intro h
    split at h
    next => cases h
    next first hfirst =>
      obtain ⟨later, -, heq⟩ := bind_eq_ok_iff.1 h
      obtain ⟨rfl, -⟩ := List.cons.inj (Except.ok.inj heq)
      have hword := congrArg Prod.snd (Op.word_eq_of_ofWord? hfirst)
      have hlonger : 0 < (splitRun '#' ('#' :: tail)).1.length := by
        show 0 < (('#' :: tail).takeWhile (· == '#')).length
        rw [List.takeWhile_cons, if_pos (by decide), List.length_cons]
        exact Nat.succ_pos _
      simp only [Op.word] at hword
      omega
  · rw [splitRun_of_head?_ne hhead, List.length_nil, Nat.add_zero, Op.ofWord?_word]
    show (do return op :: (← readWords rest)) = .ok (op :: ops) ↔ _
    rw [bind_eq_ok_iff]
    constructor
    · rintro ⟨later, hlater, heq⟩
      obtain ⟨-, rfl⟩ := List.cons.inj (Except.ok.inj heq)
      exact ⟨hhead, hlater⟩
    · rintro ⟨-, hops⟩
      exact ⟨ops, hops, rfl⟩

/-- Words begin with `1` unless their operand is 0. -/
theorem head?_flatMap_spelling_ne_iff (ops : List Op) :
    (ops.flatMap Op.spelling).head? ≠ some '#' ↔ ∀ op ∈ ops.head?, op.operand ≠ 0 := by
  cases ops with
  | nil => simp
  | cons op rest =>
    have hhashes := op.opcode_pos
    cases hoperand : op.operand with
    | zero =>
      obtain ⟨k, hk⟩ := Nat.exists_eq_succ_of_ne_zero (Nat.ne_of_gt hhashes)
      simp [Op.spelling, hoperand, hk, List.replicate_succ]
    | succ n => simp [Op.spelling, hoperand, List.replicate_succ]

/-- The words of operations are read as these operations exactly when every one after the first has
an operand. -/
theorem readWords_flatMap_spelling_iff (ops : List Op) :
    readWords (ops.flatMap Op.spelling) = .ok ops ↔ ∀ op ∈ ops.tail, op.operand ≠ 0 := by
  induction ops with
  | nil =>
    rw [List.flatMap_nil, readWords]
    simp
  | cons op rest ih =>
    rw [List.flatMap_cons, readWords_spelling_append_iff, head?_flatMap_spelling_ne_iff, ih,
      List.tail_cons]
    cases rest with
    | nil => simp
    | cons next rest => simp

/-! ## The round trip -/

theorem Op.WellFormedAt.operand_ne_zero {size here : Nat} {op : Op}
    (h : op.WellFormedAt size here) : op.operand ≠ 0 := by
  cases op with
  | write s r => exact h
  | case r => exact h
  | forward d => exact Nat.ne_of_gt h.1
  | backward d => exact Nat.ne_of_gt h.1

theorem OpsWellFormed.operand_ne_zero {size here : Nat} {ops : List Op}
    (h : OpsWellFormed size here ops) : ∀ op ∈ ops, op.operand ≠ 0 := by
  induction ops generalizing here with
  | nil => exact fun _ hmem => absurd hmem List.not_mem_nil
  | cons op rest ih => exact List.forall_mem_cons.2 ⟨h.1.operand_ne_zero, ih h.2⟩

/-- A program that comes from a stream is read back from its text in every style. -/
theorem readOps_text_of_resolve {code : List Instruction} {p : Program}
    (h : resolve code = .ok p) (style : Style) : readOps (p.text style).toList = .ok p.ops := by
  unfold readOps
  rw [toList_text, codeOf_characters, readWords_flatMap_spelling_iff]
  intro op hop
  exact (wellFormed_of_resolve h).ops.operand_ne_zero op (List.mem_of_mem_tail hop)

/-- **Reading undoes writing.** Whatever the comments of a program say and however it is written,
its text is read as the operations of the program exactly when each of them but the first has a
nonzero register or distance; programs that come from streams always are. -/
theorem reading_undoes_writing (p : Program) (style : Style) :
    (readOps (p.text style).toList = .ok p.ops ↔ ∀ op ∈ p.ops.tail, op.operand ≠ 0) ∧
      ∀ code, resolve code = .ok p → readOps (p.text style).toList = .ok p.ops := by
  refine ⟨?_, fun code h => readOps_text_of_resolve h style⟩
  unfold readOps
  rw [toList_text, codeOf_characters, readWords_flatMap_spelling_iff]

/-- A first word without `1`, and comments that look like code and like line ends. -/
def hostileProgram : Program where
  ops := [.write .hash ⟨0⟩, .case ⟨3⟩, .backward 2]
  comments := .ofList [(0, ["11#\r\n\r1##", "", ";"]), (3, ["\n\n#\r"]), (7, ["1"])]

theorem reading_undoes_writing_hostileProgram :
    readOps (hostileProgram.text {}).toList = .ok hostileProgram.ops ∧
      readOps (hostileProgram.text { compact := true }).toList = .ok hostileProgram.ops ∧
        ∀ op, readOps (({ ops := op :: hostileProgram.ops } : Program).text {}).toList ≠
          .ok (op :: hostileProgram.ops) := by
  refine ⟨?_, ?_, fun op => ?_⟩
  · exact (reading_undoes_writing hostileProgram {}).1.2 (by decide)
  · exact (reading_undoes_writing hostileProgram { compact := true }).1.2 (by decide)
  · rw [Ne, (reading_undoes_writing { ops := op :: hostileProgram.ops } {}).1]
    show ¬ ∀ next ∈ hostileProgram.ops, next.operand ≠ 0
    decide

end TextMachine
