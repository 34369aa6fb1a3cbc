import TextMachine.Proofs.Text.Reading
import Mathlib.Data.List.SplitBy
import Mathlib.Logic.Relation

/-!
# What the reader accepts

Code is read exactly when it is grammatical: it has no characters but `1` and `#`, it does not end
in an operand, and no longest run of `#` has more than five (`exists_readWords_iff`). What is read
then are the only operations that spell the code, `Spells` (`readWords_eq_ok_iff`). The code
alone decides where a word ends, since operations that spell it have an operand wherever another
word stands before them.

Both follow the reader word by word. In front of code that does not begin with `#`, the word of an
operation changes nothing about being grammatical (`grammatical_spelling_append`), and grammatical
code begins with such a word (`Grammatical.exists_ofWord?`).

The reader as a loop is a `Reader` that goes from word to word. Each round uses up a `#`, so the
number of these bounds the rounds, and the loop ends with what `readWords` gives
(`Reader.endsWithin_eq`). On the way nothing is lost: what is read and what is left always make up
the code (`Reader.Reaches.code_eq`).
-/

namespace TextMachine

/-! ## The first word -/

/-- A text is its first run of a character and what follows. -/
theorem replicate_append_splitRun (c : Char) (text : List Char) :
    List.replicate (splitRun c text).1.length c ++ (splitRun c text).2 = text := by
  have hrun : (splitRun c text).1 = List.replicate (splitRun c text).1.length c :=
    List.eq_replicate_of_mem fun d hd => beq_iff_eq.1 (List.all_eq_true.1 List.all_takeWhile d hd)
  rw [← hrun]
  exact List.takeWhile_append_dropWhile

theorem head?_splitRun_ne (c : Char) (text : List Char) :
    (splitRun c text).2.head? ≠ some c := by
  intro hhead
  have hstop := List.head?_dropWhile_not (· == c) text
  rw [show (text.dropWhile (· == c)).head? = some c from hhead] at hstop
  simp at hstop

theorem head?_afterWord_ne (code : List Char) : (afterWord code).head? ≠ some '#' :=
  head?_splitRun_ne '#' _

/-- Any code is its first word and what follows. -/
theorem firstWord_append_afterWord (code : List Char) :
    List.replicate (firstWord code).1 '1' ++
      (List.replicate (firstWord code).2 '#' ++ afterWord code) = code := by
  unfold firstWord afterWord
  rw [replicate_append_splitRun, replicate_append_splitRun]

/-- The `1` of the first word are a longest run. -/
theorem head?_hashes_append_afterWord_ne (code : List Char) :
    (List.replicate (firstWord code).2 '#' ++ afterWord code).head? ≠ some '1' := by
  unfold firstWord afterWord
  rw [replicate_append_splitRun]
  exact head?_splitRun_ne '1' code

/-- A first word that can be read is the word of the operation that is read. -/
theorem spelling_append_afterWord {code : List Char} {op : Op}
    (h : Op.ofWord? (firstWord code).1 (firstWord code).2 = some op) :
    op.spelling ++ afterWord code = code := by
  have hword := Op.word_eq_of_ofWord? h
  have hoperand : op.operand = (firstWord code).1 := congrArg Prod.fst hword
  have hopcode : op.opcode = (firstWord code).2 := congrArg Prod.snd hword
  rw [Op.spelling, hoperand, hopcode, List.append_assoc, firstWord_append_afterWord]

/-- A word uses up a `#`. -/
theorem count_afterWord_lt {code : List Char} {op : Op}
    (h : Op.ofWord? (firstWord code).1 (firstWord code).2 = some op) :
    (afterWord code).count '#' < code.count '#' := by
  have hpos := op.opcode_pos
  have hcount : code.count '#' = op.opcode + (afterWord code).count '#' := by
    conv_lhs => rw [← spelling_append_afterWord h]
    simp [Op.spelling, List.count_replicate]
  omega

theorem Op.exists_ofWord? {ones hashes : Nat} (hpos : 0 < hashes) (hle : hashes ≤ 5) :
    ∃ op, ofWord? ones hashes = some op := by
  have hcases : hashes = 1 ∨ hashes = 2 ∨ hashes = 3 ∨ hashes = 4 ∨ hashes = 5 := by omega
  rcases hcases with rfl | rfl | rfl | rfl | rfl <;> exact ⟨_, rfl⟩

/-! ## Grammatical code -/

/-- No longest run of equal characters is one of more than five `#`. -/
def ShortRuns (code : List Char) : Prop :=
  ∀ run ∈ code.splitBy (· == ·), '#' ∈ run → run.length ≤ 5

/-- Code of which every run belongs to the word of an operation. -/
@[mk_iff]
structure Grammatical (code : List Char) : Prop where
  /-- Nothing is foreign to the machine. -/
  symbols : ∀ c ∈ code, c = '1' ∨ c = '#'
  /-- No operand is left without its operation. -/
  ending : code.getLast? ≠ some '1'
  /-- No run of `#` belongs to no operation. -/
  runs : ShortRuns code

instance (code : List Char) : Decidable (ShortRuns code) :=
  inferInstanceAs (Decidable (∀ run ∈ code.splitBy (· == ·), '#' ∈ run → run.length ≤ 5))

instance (code : List Char) : Decidable (Grammatical code) :=
  -- a check of the characters there are, not of all characters
  haveI : Decidable (∀ c ∈ code, c = '1' ∨ c = '#') := List.decidableBAll _ code
  decidable_of_iff _ (grammatical_iff code).symm

/-- A longest run at the beginning is one of the runs, and the others are those of the rest. -/
theorem splitBy_replicate_append {c : Char} {rest : List Char} (h : rest.head? ≠ some c)
    (n : Nat) :
    (List.replicate (n + 1) c ++ rest).splitBy (· == ·) =
      List.replicate (n + 1) c :: rest.splitBy (· == ·) := by
  have hne : List.replicate (n + 1) c ≠ [] := List.cons_ne_nil c _
  have hchain : (List.replicate (n + 1) c).IsChain fun x y => (x == y) = true :=
    List.isChain_replicate_of_rel _ (beq_self_eq_true c)
  rw [List.splitBy_append, List.splitBy_of_isChain hne hchain, List.singleton_append]
  intro x hx y hy
  obtain rfl := List.eq_of_mem_replicate (List.mem_of_mem_getLast? hx)
  rw [beq_eq_false_iff_ne]
  rintro rfl
  exact h hy

theorem shortRuns_replicate_append {c : Char} {rest : List Char} (h : rest.head? ≠ some c)
    (n : Nat) :
    ShortRuns (List.replicate n c ++ rest) ↔ (c = '#' → n ≤ 5) ∧ ShortRuns rest := by
  cases n with
  | zero => simp
  | succ n =>
    have hrun : ('#' ∈ List.replicate (n + 1) c → (List.replicate (n + 1) c).length ≤ 5) ↔
        (c = '#' → n + 1 ≤ 5) := by
      rw [List.mem_replicate, List.length_replicate]
      simp [eq_comm]
    unfold ShortRuns
    rw [splitBy_replicate_append h, List.forall_mem_cons, hrun]

/-- The word of an operation in front changes nothing, as long as its run of `#` ends there. -/
theorem grammatical_spelling_append {op : Op} {rest : List Char} (h : rest.head? ≠ some '#') :
    Grammatical (op.spelling ++ rest) ↔ Grammatical rest := by
  have hpos := op.opcode_pos
  have hsymbols : (∀ c ∈ op.spelling ++ rest, c = '1' ∨ c = '#') ↔
      ∀ c ∈ rest, c = '1' ∨ c = '#' := by
    rw [List.forall_mem_append]
    exact and_iff_right fun c => symbol_of_mem_spelling
  have hending : (op.spelling ++ rest).getLast? ≠ some '1' ↔ rest.getLast? ≠ some '1' := by
    have hlast : op.spelling.getLast? = some '#' := by
      rw [Op.spelling, List.getLast?_append, List.getLast?_replicate, if_neg (by omega)]
      rfl
    rw [List.getLast?_append, hlast]
    cases rest.getLast? <;> simp
  have hruns : ShortRuns (op.spelling ++ rest) ↔ ShortRuns rest := by
    have hhead : (List.replicate op.opcode '#' ++ rest).head? ≠ some '1' := by
      rw [List.head?_append, List.head?_replicate, if_neg (by omega)]
      simp
    rw [Op.spelling, List.append_assoc, shortRuns_replicate_append hhead,
      shortRuns_replicate_append h]
    simp [op.opcode_le]
  rw [grammatical_iff, grammatical_iff, hsymbols, hending, hruns]

/-- Without any `#` after its first `1`, code goes on with a foreign character or ends in `1`. -/
theorem Grammatical.firstWord_snd_pos {code : List Char} (h : Grammatical code) (hne : code ≠ []) :
    0 < (firstWord code).2 := by
  apply Nat.pos_of_ne_zero
  intro hzero
  have hhead := head?_hashes_append_afterWord_ne code
  have hcode := firstWord_append_afterWord code
  rw [hzero, List.replicate_zero, List.nil_append] at hhead hcode
  cases hrest : afterWord code with
  | nil =>
    rw [hrest, List.append_nil] at hcode
    have hlast := h.ending
    rw [← hcode, List.getLast?_replicate] at hlast
    split at hlast
    next hnone =>
      rw [hnone] at hcode
      exact hne hcode.symm
    next => exact hlast rfl
  | cons c rest =>
    have hmem : c ∈ code := by
      rw [← hcode, hrest]
      exact List.mem_append_right _ List.mem_cons_self
    rcases h.symbols c hmem with rfl | rfl
    · exact hhead (by rw [hrest, List.head?_cons])
    · exact head?_afterWord_ne code (by rw [hrest, List.head?_cons])

theorem Grammatical.firstWord_snd_le {code : List Char} (h : Grammatical code) :
    (firstWord code).2 ≤ 5 := by
  have hruns := h.runs
  rw [← firstWord_append_afterWord code,
    shortRuns_replicate_append (head?_hashes_append_afterWord_ne code),
    shortRuns_replicate_append (head?_afterWord_ne code)] at hruns
  exact hruns.2.1 rfl

/-- Grammatical code begins with the word of an operation. -/
theorem Grammatical.exists_ofWord? {code : List Char} (h : Grammatical code) (hne : code ≠ []) :
    ∃ op, Op.ofWord? (firstWord code).1 (firstWord code).2 = some op :=
  Op.exists_ofWord? (h.firstWord_snd_pos hne) h.firstWord_snd_le

/-! ## Spelling -/

/-- Operations whose words make up the code, one after another. Only the first may be without an
operand: the `#` of any other would belong to the word before. -/
@[mk_iff]
structure Spells (ops : List Op) (code : List Char) : Prop where
  words : ops.flatMap Op.spelling = code
  operands : ∀ op ∈ ops.tail, op.operand ≠ 0

instance (ops : List Op) (code : List Char) : Decidable (Spells ops code) :=
  decidable_of_iff _ (spells_iff ops code).symm

/-- The words of the operations that are read are the code. -/
theorem flatMap_spelling_of_readWords {code : List Char} {ops : List Op}
    (h : readWords code = .ok ops) : ops.flatMap Op.spelling = code := by
  fun_induction readWords code generalizing ops with
  | case1 code hempty =>
    obtain rfl := Except.ok.inj h
    exact (List.isEmpty_iff.1 hempty).symm
  | case2 code hne hword => cases h
  | case3 code hne op hword ih =>
    obtain ⟨later, hlater, heq⟩ := bind_eq_ok_iff.1 h
    obtain rfl := Except.ok.inj heq
    rw [List.flatMap_cons, ih hlater, spelling_append_afterWord hword]

/-- **What is read** are the operations that spell the code. -/
theorem readWords_eq_ok_iff {code : List Char} {ops : List Op} :
    readWords code = .ok ops ↔ Spells ops code := by
  constructor
  · intro h
    have hwords := flatMap_spelling_of_readWords h
    refine ⟨hwords, (readWords_flatMap_spelling_iff ops).1 ?_⟩
    rw [hwords, h]
  · rintro ⟨rfl, hoperands⟩
    exact (readWords_flatMap_spelling_iff ops).2 hoperands

theorem Spells.unique {ops others : List Op} {code : List Char} (h : Spells ops code)
    (h' : Spells others code) : others = ops := by
  have heq := (readWords_eq_ok_iff.2 h').symm.trans (readWords_eq_ok_iff.2 h)
  exact Except.ok.inj heq

theorem Spells.grammatical {ops : List Op} {code : List Char} (h : Spells ops code) :
    Grammatical code := by
  obtain ⟨rfl, hoperands⟩ := h
  induction ops with
  | nil => decide
  | cons op rest ih =>
    rw [List.tail_cons] at hoperands
    rw [List.flatMap_cons, grammatical_spelling_append]
    · exact ih fun next hnext => hoperands next (List.mem_of_mem_tail hnext)
    · rw [head?_flatMap_spelling_ne_iff]
      intro next hnext
      exact hoperands next (List.mem_of_mem_head? hnext)

theorem Grammatical.exists_readWords {code : List Char} (h : Grammatical code) :
    ∃ ops, readWords code = .ok ops := by
  fun_induction readWords code with
  | case1 code hempty => exact ⟨[], rfl⟩
  | case2 code hne hword =>
    obtain ⟨op, hop⟩ := h.exists_ofWord? (mt List.isEmpty_iff.2 hne)
    rw [hop] at hword
    cases hword
  | case3 code hne op hword ih =>
    rw [← spelling_append_afterWord hword, grammatical_spelling_append (head?_afterWord_ne code)]
      at h
    obtain ⟨later, hlater⟩ := ih h
    exact ⟨op :: later, bind_eq_ok_iff.2 ⟨later, hlater, rfl⟩⟩

/-- **What can be read** is the grammatical code. -/
theorem exists_readWords_iff {code : List Char} :
    (∃ ops, readWords code = .ok ops) ↔ Grammatical code := by
  constructor
  · rintro ⟨ops, hops⟩
    exact (readWords_eq_ok_iff.1 hops).grammatical
  · exact Grammatical.exists_readWords

/-! ## The loop -/

/-- The reader between two words: the operations that it has read, and the code that is left. -/
structure Reader where
  done : List Op
  left : List Char

namespace Reader

/-- One round of the loop. It ends with the operations read when no code is left, and in failure at
a word that belongs to no operation; otherwise it goes on behind the word. -/
def round (r : Reader) : Except ReadError (List Op) ⊕ Reader :=
  if r.left.isEmpty then .inl (.ok r.done)
  else
    match Op.ofWord? (firstWord r.left).1 (firstWord r.left).2 with
    | none => .inl (.error .badWord)
    | some op => .inr { done := r.done ++ [op], left := afterWord r.left }

/-- What the loop ends with, if it ends within the given number of rounds. -/
def endsWithin : Nat → Reader → Option (Except ReadError (List Op))
  | 0, _ => none
  | n + 1, r =>
    match r.round with
    | .inl result => some result
    | .inr next => next.endsWithin n

/-- The reader of a text before its first round. -/
def start (text : List Char) : Reader where
  done := []
  left := codeOf text

/-- A reader comes to another one by some rounds of the loop. -/
def Reaches : Reader → Reader → Prop :=
  Relation.ReflTransGen fun r next => r.round = .inr next

/-- The whole code, of which some words have been read. -/
def code (r : Reader) : List Char :=
  r.done.flatMap Op.spelling ++ r.left

theorem exists_op_of_round {r next : Reader} (h : r.round = .inr next) :
    ∃ op, Op.ofWord? (firstWord r.left).1 (firstWord r.left).2 = some op ∧
      next = { done := r.done ++ [op], left := afterWord r.left } := by
  unfold round at h
  split at h
  next => cases h
  next =>
    split at h
    next => cases h
    next op hop => exact ⟨op, hop, (Sum.inr.inj h).symm⟩

/-- A round loses nothing of the code. -/
theorem code_eq_of_round {r next : Reader} (h : r.round = .inr next) : next.code = r.code := by
  obtain ⟨op, hop, rfl⟩ := exists_op_of_round h
  simp only [code, List.flatMap_append, List.flatMap_cons, List.flatMap_nil, List.append_nil,
    List.append_assoc]
  rw [spelling_append_afterWord hop]

theorem Reaches.code_eq {r next : Reader} (h : r.Reaches next) : next.code = r.code := by
  induction h with
  | refl => rfl
  | tail _ hround ih => exact (code_eq_of_round hround).trans ih

/-- **The loop ends**, in one round more than there are `#` at the latest, with what is read. -/
theorem endsWithin_eq {n : Nat} {left : List Char} (h : left.count '#' < n) (done : List Op) :
    endsWithin n { done, left } = some ((readWords left).map (done ++ ·)) := by
  obtain ⟨n, rfl⟩ := Nat.exists_eq_add_one_of_ne_zero (Nat.ne_of_gt (Nat.zero_lt_of_lt h))
  fun_induction readWords left generalizing done n with
  | case1 left hempty =>
    rw [endsWithin, round, if_pos hempty]
    show some (Except.ok done) = some (Except.ok (done ++ []))
    rw [List.append_nil]
  | case2 left hne hword =>
    rw [endsWithin, round, if_neg hne, hword]
    rfl
  | case3 left hne op hword ih =>
    -- the word has used up a `#`, so one round less is enough for what is left
    have hless := count_afterWord_lt hword
    obtain ⟨n, rfl⟩ := Nat.exists_eq_add_one_of_ne_zero (show n ≠ 0 by omega)
    rw [endsWithin, round, if_neg hne, hword]
    show endsWithin (n + 1) { done := done ++ [op], left := afterWord left } = _
    rw [ih (done ++ [op]) n (by omega)]
    cases readWords (afterWord left) with
    | error e => rfl
    | ok later =>
      show some (Except.ok (done ++ [op] ++ later)) = some (Except.ok (done ++ op :: later))
      rw [List.append_assoc, List.singleton_append]

end Reader

/-! ## Texts -/

theorem length_flatten_lines_le (text : List Char) :
    (lines text).flatten.length ≤ text.length := by
  fun_induction lines text with
  | case1 => exact Nat.le_refl 0
  | case2 rest ih =>
    simp only [List.flatten_cons, List.nil_append, List.length_cons]
    omega
  | case3 rest ih =>
    simp only [List.flatten_cons, List.nil_append, List.length_cons]
    omega
  | case4 c rest hcr hlf hnone ih => simp
  | case5 c rest hcr hlf first more hlines ih =>
    rw [hlines] at ih
    simp only [List.flatten_cons, List.cons_append, List.length_cons] at ih ⊢
    omega

theorem length_codeOf_le (text : List Char) : (codeOf text).length ≤ text.length :=
  (List.filter_sublist.flatten.length_le).trans (length_flatten_lines_le text)

/-- However far a reader has come, the counts of its next word are within the text. -/
theorem Reader.Reaches.firstWord_le {text : List Char} {r : Reader}
    (h : (Reader.start text).Reaches r) :
    (firstWord r.left).1 + (firstWord r.left).2 ≤ text.length := by
  have hcode : r.done.flatMap Op.spelling ++ r.left = codeOf text := h.code_eq
  have hlength := congrArg List.length hcode
  rw [List.length_append] at hlength
  have hword := length_firstWord r.left
  have htext := length_codeOf_le text
  omega

/-- **The reader accepts exactly its grammar, and writing undoes reading.** A text is read when its
code is grammatical, and is refused for a bad word otherwise. The operations that are read spell the
code, and no others do. The loop ends on every text, and no count that it makes is greater than the
number of characters. -/
theorem reading_accepts_exactly_the_grammar (text : List Char) :
    ((∃ ops, readOps text = .ok ops) ↔ Grammatical (codeOf text)) ∧
    (¬ Grammatical (codeOf text) → readOps text = .error .badWord) ∧
    (∀ ops, readOps text = .ok ops →
      Spells ops (codeOf text) ∧ ∀ others, Spells others (codeOf text) → others = ops) ∧
    (Reader.start text).endsWithin ((codeOf text).count '#' + 1) = some (readOps text) ∧
    ∀ r, (Reader.start text).Reaches r →
      (firstWord r.left).1 + (firstWord r.left).2 ≤ text.length := by
  refine ⟨exists_readWords_iff, fun hbad => ?_, fun ops hops => ?_, ?_, fun r hr => hr.firstWord_le⟩
  · cases hread : readOps text with
    | error e => rfl
    | ok ops => exact absurd (exists_readWords_iff.1 ⟨ops, hread⟩) hbad
  · have hspells := readWords_eq_ok_iff.1 hops
    exact ⟨hspells, fun others hothers => hspells.unique hothers⟩
  · have hends := Reader.endsWithin_eq (Nat.lt_succ_self ((codeOf text).count '#')) []
    refine hends.trans (congrArg some ?_)
    show (readOps text).map ([] ++ ·) = readOps text
    cases readOps text <;> rfl

/-- Lines that end in each of the ways there are, with a word across two of them and a comment in
between. -/
def brokenLines : List Char :=
  "##1\r\n;1#x\n\n11#".toList

theorem reading_accepts_exactly_the_grammar_brokenLines :
    readOps brokenLines = .ok [.write .hash ⟨0⟩, .write .one ⟨3⟩] ∧
      readOps ("####".toList ++ brokenLines) = .error .badWord ∧
        (firstWord "111#".toList).1 + (firstWord "111#".toList).2 ≤ brokenLines.length := by
  have haccepts := reading_accepts_exactly_the_grammar brokenLines
  obtain ⟨ops, hops⟩ := haccepts.1.2 (by decide)
  have hspells : Spells [.write .hash ⟨0⟩, .write .one ⟨3⟩] (codeOf brokenLines) := by decide
  refine ⟨?_, ?_, ?_⟩
  · rw [hops, (haccepts.2.2.1 ops hops).2 _ hspells]
  · -- the run of `#` at the beginning now has six
    exact (reading_accepts_exactly_the_grammar ("####".toList ++ brokenLines)).2.1 (by decide)
  · exact haccepts.2.2.2.2 { done := [.write .hash ⟨0⟩], left := "111#".toList } (.single rfl)

end TextMachine
