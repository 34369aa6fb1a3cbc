import TextMachine.Listing
import Mathlib.Algebra.Ring.Nat

/-!
# The lines of a written program

Written with one operation per line, a program is a list of lines of two kinds: words of operations,
and comment lines, which begin with `;` and hold neither symbol of the machine. `Annotated` says so
of a list of lines and the operations whose words are among them, in order; `Shows` says it of a
text. Comments show no operation, the line of an operation shows that one, and texts one after the
other show the operations of each (`Shows.append`), so every program shows its operations
(`shows_characters`).

Looked at in two ways, such a text has the same code. Its characters without those that are foreign
to the machine are the words (`Shows.symbolsOf_eq`). Its lines of code are the words too, one for
each operation (`Annotated.filter_isCode`): a carriage return that closes a written line counts as a
part of the line end, but that turns no comment into code (`Shows.annotated_lines`).
-/

namespace TextMachine

/-! ## Lines of a text -/

/-- No line holds a line feed. -/
theorem lineFeed_not_mem_of_mem_lines {text line : List Char} (h : line ∈ lines text) :
    '\n' ∉ line := by
  fun_induction lines text generalizing line with
  | case1 => exact absurd h List.not_mem_nil
  | case2 rest ih =>
    rcases List.mem_cons.1 h with rfl | h
    · exact List.not_mem_nil
    · exact ih h
  | case3 rest ih =>
    rcases List.mem_cons.1 h with rfl | h
    · exact List.not_mem_nil
    · exact ih h
  | case4 c rest hcr hlf hnone ih =>
    obtain rfl := List.mem_singleton.1 h
    intro hmem
    exact hlf (List.mem_singleton.1 hmem).symm
  | case5 c rest hcr hlf first more hlines ih =>
    rw [hlines] at ih
    rcases List.mem_cons.1 h with rfl | h
    · intro hmem
      rcases List.mem_cons.1 hmem with heq | hmem
      · exact hlf heq.symm
      · exact ih List.mem_cons_self hmem
    · exact ih (List.mem_cons_of_mem first h)

/-- A line without the carriage return that belongs to its end, if there is one. -/
def dropReturn : List Char → List Char
  | [] => []
  | ['\r'] => []
  | c :: rest => c :: dropReturn rest

theorem dropReturn_cons_of_ne {c : Char} (h : c ≠ '\r') (rest : List Char) :
    dropReturn (c :: rest) = c :: dropReturn rest := by
  rw [dropReturn]
  intro hc _
  exact h hc

theorem dropReturn_of_not_mem {line : List Char} (h : '\r' ∉ line) : dropReturn line = line := by
  induction line with
  | nil => rfl
  | cons c rest ih =>
    rw [List.mem_cons, not_or] at h
    rw [dropReturn_cons_of_ne (Ne.symm h.1), ih h.2]

/-- The text up to the first line feed is the first line. -/
theorem lines_append_lineFeed {line : List Char} (h : '\n' ∉ line) (rest : List Char) :
    lines (line ++ '\n' :: rest) = dropReturn line :: lines rest := by
  fun_induction dropReturn line with
  | case1 => rfl
  | case2 => rfl
  | case3 c tail hreturn ih =>
    rw [List.mem_cons, not_or] at h
    have hlines := ih h.2
    -- a carriage return is text here, since no line feed follows it
    rw [List.cons_append, lines, hlines]
    · intro more hc htail
      cases tail with
      | nil => exact hreturn hc rfl
      | cons d tail =>
        obtain ⟨rfl, -⟩ := List.cons.inj htail
        exact h.2 List.mem_cons_self
    · intro hc
      exact h.1 hc.symm

/-! ## Words -/

theorem symbol_of_mem_spelling {op : Op} {c : Char} (hc : c ∈ op.spelling) :
    c = '1' ∨ c = '#' := by
  rcases List.mem_append.1 hc with hc | hc
  · exact .inl (List.eq_of_mem_replicate hc)
  · exact .inr (List.eq_of_mem_replicate hc)

theorem symbol_of_mem_words {c : Char} (ops : List Op) (hc : c ∈ ops.flatMap Op.spelling) :
    c = '1' ∨ c = '#' := by
  obtain ⟨op, -, hop⟩ := List.mem_flatMap.1 hc
  exact symbol_of_mem_spelling hop

theorem spelling_ne_nil (op : Op) : op.spelling ≠ [] := by
  intro h
  have hlength := congrArg List.length h
  rw [Op.length_spelling, Op.encodedLength, List.length_nil] at hlength
  have := op.opcode_pos
  omega

/-! ## Lines of two kinds -/

/-- A line that no reader takes for code. -/
structure IsComment (line : List Char) : Prop where
  semicolon : line.head? = some ';'
  one : '1' ∉ line
  hash : '#' ∉ line

/-- Lines that are the words of operations, in order, with comment lines anywhere among them. -/
inductive Annotated : List Op → List (List Char) → Prop
  | nil : Annotated [] []
  | comment {ops line rest} (hline : IsComment line) (h : Annotated ops rest) :
    Annotated ops (line :: rest)
  | word {ops rest} (op : Op) (h : Annotated ops rest) :
    Annotated (op :: ops) (op.spelling :: rest)

theorem isCode_spelling (op : Op) : isCode op.spelling = true := by
  rw [isCode, Bool.and_eq_true, List.all_eq_true]
  refine ⟨?_, fun c hc => ?_⟩
  · simp [spelling_ne_nil op]
  · simpa using symbol_of_mem_spelling hc

theorem IsComment.isCode_eq_false {line : List Char} (h : IsComment line) :
    isCode line = false := by
  obtain ⟨rest, rfl⟩ := List.head?_eq_some_iff.1 h.semicolon
  rfl

theorem head?_spelling_ne (op : Op) : op.spelling.head? ≠ some ';' := by
  intro hhead
  exact absurd (symbol_of_mem_spelling (List.mem_of_mem_head? hhead)) (by decide)

namespace Annotated

variable {ops later : List Op} {all more : List (List Char)}

theorem append (h : Annotated ops all) (h' : Annotated later more) :
    Annotated (ops ++ later) (all ++ more) := by
  induction h with
  | nil => exact h'
  | comment hline _ ih => exact .comment hline ih
  | word op _ ih => exact .word op ih

/-- The lines of code are the words. -/
theorem filter_isCode (h : Annotated ops all) : all.filter isCode = ops.map Op.spelling := by
  induction h with
  | nil => rfl
  | comment hline _ ih => rw [List.filter_cons_of_neg (by simp [hline.isCode_eq_false]), ih]
  | word op _ ih => rw [List.filter_cons_of_pos (isCode_spelling op), ih, List.map_cons]

/-- The lines that do not begin with a semicolon are the words. -/
theorem filter_head? (h : Annotated ops all) :
    (all.filter fun line => line.head? != some ';') = ops.map Op.spelling := by
  induction h with
  | nil => rfl
  | comment hline _ ih => rw [List.filter_cons_of_neg (by simp [hline.semicolon]), ih]
  | word op _ ih => rw [List.filter_cons_of_pos (by simp [head?_spelling_ne op]), ih, List.map_cons]

/-- The other lines are comments. -/
theorem isComment_of_mem (h : Annotated ops all) {line : List Char} (hmem : line ∈ all)
    (hcode : isCode line = false) : IsComment line := by
  induction h with
  | nil => cases hmem
  | comment hline _ ih =>
    rcases List.mem_cons.1 hmem with rfl | hmem
    · exact hline
    · exact ih hmem
  | word op _ ih =>
    rcases List.mem_cons.1 hmem with rfl | hmem
    · rw [isCode_spelling] at hcode
      cases hcode
    · exact ih hmem

end Annotated

/-! ## Texts -/

/-- A text of lines among which the words of operations are the only code. -/
def Shows (ops : List Op) (text : List Char) : Prop :=
  ∃ written, Annotated ops written ∧ (∀ line ∈ written, '\n' ∉ line) ∧
    text = written.flatMap (· ++ ['\n'])

theorem Shows.append {ops later : List Op} {text more : List Char} (h : Shows ops text)
    (h' : Shows later more) : Shows (ops ++ later) (text ++ more) := by
  obtain ⟨written, hwritten, hfeed, rfl⟩ := h
  obtain ⟨others, hothers, hfeed', rfl⟩ := h'
  refine ⟨written ++ others, hwritten.append hothers, ?_, List.flatMap_append.symm⟩
  intro line hline
  rcases List.mem_append.1 hline with hline | hline
  · exact hfeed line hline
  · exact hfeed' line hline

theorem shows_nil : Shows [] [] :=
  ⟨[], .nil, fun _ h => absurd h List.not_mem_nil, rfl⟩

theorem shows_flatMap {α : Type} {f : α → List Char} {xs : List α}
    (h : ∀ x ∈ xs, Shows [] (f x)) : Shows [] (xs.flatMap f) := by
  induction xs with
  | nil => exact shows_nil
  | cons x rest ih =>
    obtain ⟨hx, hrest⟩ := List.forall_mem_cons.1 h
    exact hx.append (ih hrest)

theorem shows_word (op : Op) : Shows [op] (op.spelling ++ ['\n']) := by
  refine ⟨[op.spelling], .word op .nil, ?_, (List.append_nil _).symm⟩
  intro line hline hfeed
  rw [List.mem_singleton.1 hline] at hfeed
  exact absurd (symbol_of_mem_spelling hfeed) (by decide)

/-! ### Looking at characters -/

/-- What is left of a text when every character foreign to the machine is deleted. -/
def symbolsOf (text : List Char) : List Char :=
  text.filter fun c => c = '1' || c = '#'

theorem symbolsOf_append (first second : List Char) :
    symbolsOf (first ++ second) = symbolsOf first ++ symbolsOf second :=
  List.filter_append ..

theorem symbolsOf_eq_self {text : List Char} (h : ∀ c ∈ text, c = '1' ∨ c = '#') :
    symbolsOf text = text := by
  apply List.filter_eq_self.2
  intro c hc
  simpa using h c hc

theorem IsComment.symbolsOf_eq_nil {line : List Char} (h : IsComment line) :
    symbolsOf line = [] := by
  apply List.filter_eq_nil_iff.2
  intro c hc hsymbol
  have hor : c = '1' ∨ c = '#' := by simpa using hsymbol
  rcases hor with rfl | rfl
  · exact h.one hc
  · exact h.hash hc

/-- The words are all that is left when foreign characters are deleted. -/
theorem Shows.symbolsOf_eq {ops : List Op} {text : List Char} (h : Shows ops text) :
    symbolsOf text = ops.flatMap Op.spelling := by
  obtain ⟨written, hwritten, -, rfl⟩ := h
  have hfeed : symbolsOf ['\n'] = [] := rfl
  induction hwritten with
  | nil => rfl
  | comment hline _ ih =>
    rw [List.flatMap_cons, symbolsOf_append, symbolsOf_append, hline.symbolsOf_eq_nil, hfeed, ih]
    rfl
  | word op _ ih =>
    rw [List.flatMap_cons, symbolsOf_append, symbolsOf_append, hfeed, ih,
      symbolsOf_eq_self fun _ => symbol_of_mem_spelling, List.append_nil, List.flatMap_cons]

/-! ### Looking at lines -/

theorem mem_of_mem_dropReturn {line : List Char} {c : Char} (h : c ∈ dropReturn line) :
    c ∈ line := by
  fun_induction dropReturn line with
  | case1 => exact h
  | case2 => cases h
  | case3 d rest _ ih =>
    rcases List.mem_cons.1 h with rfl | h
    · exact List.mem_cons_self
    · exact List.mem_cons_of_mem d (ih h)

theorem IsComment.dropReturn {line : List Char} (h : IsComment line) :
    IsComment (dropReturn line) where
  semicolon := by
    obtain ⟨rest, rfl⟩ := List.head?_eq_some_iff.1 h.semicolon
    rw [dropReturn_cons_of_ne (by decide), List.head?_cons]
  one := fun hmem => h.one (mem_of_mem_dropReturn hmem)
  hash := fun hmem => h.hash (mem_of_mem_dropReturn hmem)

theorem dropReturn_spelling (op : Op) : dropReturn op.spelling = op.spelling :=
  dropReturn_of_not_mem fun hmem => absurd (symbol_of_mem_spelling hmem) (by decide)

/-- The lines of a text are again words and comments. -/
theorem Shows.annotated_lines {ops : List Op} {text : List Char} (h : Shows ops text) :
    Annotated ops (lines text) := by
  obtain ⟨written, hwritten, hfeed, rfl⟩ := h
  induction hwritten with
  | nil => exact .nil
  | comment hline _ ih =>
    obtain ⟨hline', hrest⟩ := List.forall_mem_cons.1 hfeed
    rw [List.flatMap_cons, List.append_assoc, List.singleton_append, lines_append_lineFeed hline']
    exact .comment hline.dropReturn (ih hrest)
  | word op _ ih =>
    obtain ⟨hline', hrest⟩ := List.forall_mem_cons.1 hfeed
    rw [List.flatMap_cons, List.append_assoc, List.singleton_append, lines_append_lineFeed hline',
      dropReturn_spelling]
    exact .word op (ih hrest)

/-! ## Programs -/

theorem toList_text (p : Program) (style : Style) :
    (p.text style).toList = p.characters style :=
  String.toList_ofList

theorem flatMap_characters_pieces (op : Op) :
    op.pieces.flatMap Piece.characters = op.spelling := by
  simp [Op.pieces, Piece.characters, Op.spelling]

theorem commentChar_ne_lineFeed {c : Char} (h : c ≠ '\n') : commentChar c ≠ '\n' := by
  unfold commentChar
  split
  · decide
  · split
    · decide
    · exact h

theorem commentChar_ne_symbol (c : Char) : commentChar c ≠ '1' ∧ commentChar c ≠ '#' := by
  unfold commentChar
  split
  · decide
  · split
    · decide
    · exact ⟨‹_›, ‹_›⟩

/-- A line of a comment is written as a comment line, whatever it says. -/
theorem shows_commentLine {line : List Char} (h : '\n' ∉ line) : Shows [] (commentLine line) := by
  unfold commentLine
  split
  · refine ⟨[[';']], .comment ⟨rfl, by decide, by decide⟩ .nil, ?_, rfl⟩
    decide
  · have hmap : ∀ c, (∀ d ∈ line, commentChar d ≠ c) → c ≠ ';' → c ≠ ' ' →
        c ∉ ';' :: ' ' :: line.map commentChar := by
      intro c hne hsemi hblank hmem
      simp only [List.mem_cons, List.mem_map, hsemi, hblank, false_or] at hmem
      obtain ⟨d, hd, heq⟩ := hmem
      exact hne d hd heq
    refine ⟨[';' :: ' ' :: line.map commentChar], .comment ⟨rfl, ?_, ?_⟩ .nil, ?_, by simp⟩
    · exact hmap '1' (fun d _ => (commentChar_ne_symbol d).1) (by decide) (by decide)
    · exact hmap '#' (fun d _ => (commentChar_ne_symbol d).2) (by decide) (by decide)
    · intro written hwritten
      rw [List.mem_singleton.1 hwritten]
      refine hmap '\n' (fun d hd => ?_) (by decide) (by decide)
      exact commentChar_ne_lineFeed fun heq => h (heq ▸ hd)

theorem shows_commentPiecesAt (p : Program) (index : Nat) :
    Shows [] ((p.commentPiecesAt index).flatMap Piece.characters) := by
  rw [Program.commentPiecesAt, List.flatMap_assoc]
  refine shows_flatMap fun text _ => ?_
  rw [commentPieces, List.flatMap_map]
  exact shows_flatMap fun line hline =>
    shows_commentLine (lineFeed_not_mem_of_mem_lines hline)

theorem flatMap_characters_piecesFrom_cons (p : Program) (comments : Bool) (here : Nat) (op : Op)
    (rest : List Op) :
    (p.piecesFrom comments here (op :: rest)).flatMap Piece.characters =
      (if comments then p.commentPiecesAt here else []).flatMap Piece.characters ++
        (op.spelling ++ ['\n'] ++
          (p.piecesFrom comments (here + 1) rest).flatMap Piece.characters) := by
  rw [Program.piecesFrom, List.append_assoc, List.flatMap_append, List.flatMap_append,
    flatMap_characters_pieces, List.flatMap_cons, List.append_assoc]
  rfl

theorem shows_piecesFrom (p : Program) (comments : Bool) (here : Nat) (ops : List Op) :
    Shows ops ((p.piecesFrom comments here ops).flatMap Piece.characters) := by
  have hcomments : ∀ here,
      Shows [] ((if comments then p.commentPiecesAt here else []).flatMap Piece.characters) := by
    intro here
    split
    · exact shows_commentPiecesAt p here
    · exact shows_nil
  induction ops generalizing here with
  | nil => exact hcomments here
  | cons op rest ih =>
    rw [flatMap_characters_piecesFrom_cons]
    exact (hcomments here).append ((shows_word op).append (ih (here + 1)))

/-- With one operation per line, a program shows its operations. -/
theorem shows_characters (p : Program) (style : Style) (h : style.compact = false) :
    Shows p.ops (p.characters style) := by
  unfold Program.characters Program.pieces
  rw [h]
  exact shows_piecesFrom p style.comments 0 p.ops

/-- Compactly, a program is its words on one line. -/
theorem characters_compact (p : Program) {style : Style} (h : style.compact = true) :
    p.characters style = p.ops.flatMap Op.spelling ++ ['\n'] := by
  have hwords : (p.ops.flatMap Op.pieces).flatMap Piece.characters = p.ops.flatMap Op.spelling := by
    rw [List.flatMap_assoc]
    exact congrArg (p.ops.flatMap ·) (funext flatMap_characters_pieces)
  unfold Program.characters Program.pieces
  rw [h, if_pos rfl, List.flatMap_append, hwords]
  rfl

/-- However it is written, nothing of a program but its words is in the machine's alphabet. -/
theorem symbolsOf_characters (p : Program) (style : Style) :
    symbolsOf (p.characters style) = p.ops.flatMap Op.spelling := by
  cases h : style.compact with
  | false => exact (shows_characters p style h).symbolsOf_eq
  | true =>
    rw [characters_compact p h, symbolsOf_append,
      symbolsOf_eq_self fun _ => symbol_of_mem_words p.ops]
    exact List.append_nil _

/-- **Comments are never read as code.** Whatever the comments of a program say and however it is
written, deleting all that is foreign to the machine leaves the words of its operations. With one
operation per line, the lines of code are these words, one for each operation and in order, and
every other line begins with a semicolon and holds neither symbol. Compactly, the words are on one
line, and nothing else is. -/
theorem comments_are_never_code (p : Program) (style : Style) :
    ((p.text style).toList.filter (fun c => c = '1' || c = '#') = p.ops.flatMap Op.spelling ∧
      (p.ops.flatMap Op.spelling).length = (p.ops.map Op.encodedLength).sum) ∧
    (style.compact = false →
      (lines (p.text style).toList).filter isCode = p.ops.map Op.spelling ∧
        ∀ line ∈ lines (p.text style).toList, isCode line = false →
          line.head? = some ';' ∧ '1' ∉ line ∧ '#' ∉ line) ∧
    (style.compact = true → (p.text style).toList = p.ops.flatMap Op.spelling ++ ['\n']) := by
  rw [toList_text]
  refine ⟨⟨symbolsOf_characters p style, ?_⟩, fun h => ?_, characters_compact p⟩
  · simp [List.length_flatMap]
  · have hlines := (shows_characters p style h).annotated_lines
    refine ⟨hlines.filter_isCode, fun line hline hcode => ?_⟩
    obtain ⟨hsemi, hone, hhash⟩ := hlines.isComment_of_mem hline hcode
    exact ⟨hsemi, hone, hhash⟩

/-- Comments that look like code, like line ends and like comment lines. -/
def disguisedComments : Program where
  ops := [.write .hash ⟨0⟩, .case ⟨3⟩]
  comments := .ofList [(0, ["1#\r\n\r11##", "", ";"]), (2, ["\n\n#\r"]), (9, ["1"])]

theorem comments_are_never_code_disguisedComments :
    (lines (disguisedComments.text {}).toList).filter isCode = ["##".toList, "111#####".toList] ∧
      (disguisedComments.text { compact := true }).toList = "##111#####\n".toList :=
  ⟨((comments_are_never_code disguisedComments {}).2.1 rfl).1,
    (comments_are_never_code disguisedComments { compact := true }).2.2 rfl⟩

end TextMachine
