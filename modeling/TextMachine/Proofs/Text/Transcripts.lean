import TextMachine.Proofs.Resolution.RoundTrip
import TextMachine.Proofs.Text.Lines
import TextMachine.Proofs.Text.Writing

/-!
# The text of a stream

Resolution takes the comments out of a stream and keeps them by position; writing puts them back
between the operations. `Transcript` says what should come of that, without any position: the stream
is written down instruction by instruction, each comment where it stands and the next operation for
each real instruction. That is what is written (`transcript_of_resolve`), and the comment lines are
all that comments add to it (`withoutComments_characters`).

The proof goes along the stream. A comment at its front is the first at its position, and so the
first to be written (`commentedText_prepend`); a real instruction at its front has no comment before
it left, since all that follow it are at later positions (`textsAt_resolveComments_of_lt`).
-/

namespace TextMachine

/-! ## Transcripts -/

/-- A comment in the text. Each of its lines is on a line of its own: a semicolon, and then, unless
the line is empty, a blank and the line with `¹` for every `1` and `♯` for every `#`. -/
def shownComment (text : String) : List Char :=
  (lines text.toList).flatMap fun line =>
    ';' :: (if line = [] then [] else ' ' :: line.map fun
      | '1' => '¹'
      | '#' => '♯'
      | c => c) ++ ['\n']

/-- A text is a stream written down in order, where the real instructions of the stream have the
given operations. A comment is shown where it stands, a real instruction is the word of its
operation on a line, and the other markers leave nothing. -/
inductive Transcript : List Instruction → List Op → List Char → Prop
  | nil : Transcript [] [] []
  | label {code ops text} (l : Label) (h : Transcript code ops text) :
    Transcript (.setLabel l :: code) ops text
  | nop {code ops text} (h : Transcript code ops text) : Transcript (.nop :: code) ops text
  | comment {code ops text} (remark : String) (h : Transcript code ops text) :
    Transcript (.comment remark :: code) ops (shownComment remark ++ text)
  | real {code ops text} {i : Instruction} (op : Op) (hreal : i.width = 1)
    (h : Transcript code ops text) :
    Transcript (i :: code) (op :: ops) (op.spelling ++ ['\n'] ++ text)

/-- A text without its comment lines. -/
def withoutComments (text : List Char) : List Char :=
  ((lines text).filter fun line => line.head? != some ';').flatMap (· ++ ['\n'])

/-! ## What is written from a position on -/

theorem flatMap_characters_commentPieces (text : String) :
    (commentPieces text).flatMap Piece.characters = shownComment text := by
  have hchar : (fun c => match c with | '1' => '¹' | '#' => '♯' | c => c) = commentChar := by
    funext c
    unfold commentChar
    split <;> simp_all
  rw [commentPieces, List.flatMap_map, shownComment]
  refine congrArg (List.flatMap · (lines text.toList)) (funext fun line => ?_)
  rw [hchar]
  cases line <;> rfl

/-- What is written from a position on depends on the comments from there on only. -/
theorem piecesFrom_congr {p q : Program} {comments : Bool} {here : Nat} {ops : List Op}
    (h : ∀ k, here ≤ k → p.commentsAt k = q.commentsAt k) :
    p.piecesFrom comments here ops = q.piecesFrom comments here ops := by
  induction ops generalizing here with
  | nil =>
    unfold Program.piecesFrom Program.commentPiecesAt
    rw [h here (Nat.le_refl here)]
  | cons op rest ih =>
    unfold Program.piecesFrom Program.commentPiecesAt
    rw [h here (Nat.le_refl here), ih fun k hk => h k (Nat.le_of_succ_le hk)]

/-- The text with comments from position `here` on, where `ops` are the operations from there on. -/
def commentedText (c : Comments) (here : Nat) (ops : List Op) : List Char :=
  (({ comments := c } : Program).piecesFrom true here ops).flatMap Piece.characters

/-- The first comment at a position is the first to be written there. -/
theorem commentedText_prepend (c : Comments) (here : Nat) (text : String) (ops : List Op) :
    commentedText (c.prepend here text) here ops =
      shownComment text ++ commentedText c here ops := by
  have hhere : ({ comments := c.prepend here text } : Program).commentPiecesAt here =
      commentPieces text ++ ({ comments := c } : Program).commentPiecesAt here := by
    show ((c.prepend here text).textsAt here).flatMap commentPieces = _
    rw [Comments.textsAt_prepend, if_pos rfl, List.flatMap_cons]
    rfl
  have hlater : ∀ rest, ({ comments := c.prepend here text } : Program).piecesFrom true (here + 1)
      rest = ({ comments := c } : Program).piecesFrom true (here + 1) rest := by
    refine fun rest => piecesFrom_congr fun k hk => ?_
    show (c.prepend here text).textsAt k = c.textsAt k
    rw [Comments.textsAt_prepend, if_neg (by omega)]
  unfold commentedText
  rw [← flatMap_characters_commentPieces, ← List.flatMap_append]
  cases ops with
  | nil => exact congrArg (List.flatMap Piece.characters) hhere
  | cons op rest => simp only [Program.piecesFrom, if_true, hhere, hlater, List.append_assoc]

/-- Where there is no comment, the operation is what is written first. -/
theorem commentedText_cons {c : Comments} {here : Nat} (h : c.textsAt here = []) (op : Op)
    (rest : List Op) :
    commentedText c here (op :: rest) =
      op.spelling ++ ['\n'] ++ commentedText c (here + 1) rest := by
  have hnone : ({ comments := c } : Program).commentPiecesAt here = [] := by
    show (c.textsAt here).flatMap commentPieces = []
    rw [h, List.flatMap_nil]
  rw [commentedText, flatMap_characters_piecesFrom_cons, if_pos rfl, hnone, List.flatMap_nil,
    List.nil_append]
  rfl

/-- There are no comments before the position where a stream starts. -/
theorem textsAt_resolveComments_of_lt {here k : Nat} (hk : k < here) (code : List Instruction) :
    (resolveComments here code).textsAt k = [] := by
  have hnone : (resolveComments here code).get? k = none := by
    rw [Option.eq_none_iff_forall_ne_some]
    intro texts htexts
    have hle := (of_get?_resolveComments htexts).1
    omega
  rw [Comments.textsAt, hnone, Option.getD_none]

/-- What is written from a position on is what the rest of the stream says. -/
theorem transcript_commentedText {positions : List (Label × Nat)} {here : Nat}
    {code : List Instruction} {ops : List Op} (h : resolveOps positions here code = .ok ops) :
    Transcript code ops (commentedText (resolveComments here code) here ops) := by
  induction code generalizing here ops with
  | nil =>
    cases h
    exact .nil
  | cons i rest ih =>
    obtain ⟨op?, later, hi, hrest, rfl⟩ := resolveOps_cons_eq_ok_iff.1 h
    -- the comments after a real instruction are all at later positions
    have hreal : ∀ op, i.width = 1 → Transcript (i :: rest) (op :: later)
        (commentedText (resolveComments (here + i.width) rest) here (op :: later)) := by
      intro op hwidth
      rw [hwidth] at hrest ⊢
      rw [commentedText_cons (textsAt_resolveComments_of_lt (Nat.lt_succ_self here) rest)]
      exact .real op hwidth (ih hrest)
    cases i with
    | write s r =>
      obtain ⟨-, rfl⟩ := Instruction.resolve_write_eq_ok_iff.1 hi
      exact hreal _ rfl
    | case r =>
      obtain ⟨-, rfl⟩ := Instruction.resolve_case_eq_ok_iff.1 hi
      exact hreal _ rfl
    | jump l =>
      obtain ⟨target, -, -, rfl⟩ := Instruction.resolve_jump_eq_ok_iff.1 hi
      exact hreal _ rfl
    | setLabel l =>
      cases hi
      exact .label l (ih hrest)
    | comment text =>
      cases hi
      rw [resolveComments, commentedText_prepend]
      exact .comment text (ih hrest)
    | nop =>
      cases hi
      exact .nop (ih hrest)

/-! ## Whole texts -/

/-- With comments, a program that comes from a stream is written as the stream says. -/
theorem transcript_of_resolve {code : List Instruction} {p : Program} (h : resolve code = .ok p) :
    Transcript code p.ops (p.characters { comments := true }) := by
  obtain ⟨-, hops, hcomments⟩ := resolve_eq_ok_iff.1 h
  have htext : p.characters { comments := true } =
      commentedText (resolveComments 0 code) 0 p.ops := by
    refine congrArg (List.flatMap Piece.characters) (piecesFrom_congr fun k _ => ?_)
    show p.comments.textsAt k = (resolveComments 0 code).textsAt k
    rw [hcomments]
  rw [htext]
  exact transcript_commentedText hops

/-- Without comments, a program is written as its words. -/
theorem characters_plain (p : Program) :
    p.characters { comments := false } = p.ops.flatMap fun op => op.spelling ++ ['\n'] := by
  show (p.piecesFrom false 0 p.ops).flatMap Piece.characters = _
  generalize 0 = here
  induction p.ops generalizing here with
  | nil => rfl
  | cons op rest ih =>
    rw [flatMap_characters_piecesFrom_cons, ih, List.flatMap_cons]
    rfl

/-- The comment lines are all that comments add to a text. -/
theorem withoutComments_characters (p : Program) (comments : Bool) :
    withoutComments (p.characters { comments }) = p.characters { comments := false } := by
  have hlines := (shows_characters p { comments } rfl).annotated_lines
  rw [withoutComments, hlines.filter_head?, characters_plain, List.flatMap_map]

/-- **The text follows the stream.** A stream that resolves is written, with its comments, as its
transcript: every comment stands where it stood in the stream, every real instruction is the line of
its operation, and nothing else is written. Without comments the same is written less the comment
lines. -/
theorem text_follows_stream {code : List Instruction} {p : Program} (h : resolve code = .ok p) :
    ∃ text, Transcript code p.ops text ∧
      (assemble code { comments := true }).run.run {} = (.ok (), { bytes := utf8 text }) ∧
        (assemble code { comments := false }).run.run {} =
          (.ok (), { bytes := utf8 (withoutComments text) }) := by
  refine ⟨p.characters { comments := true }, transcript_of_resolve h, ?_, ?_⟩
  · rw [run_assemble h, p.run_emit_keeping, Array.empty_append]
    rfl
  · rw [run_assemble h, p.run_emit_keeping, Array.empty_append, withoutComments_characters]
    rfl

/-- Several comments at one position, on both sides of a label, with line ends in them or empty, and
one after the last instruction. -/
def remarkedStream : List Instruction :=
  [.comment "a\n\n1#", .setLabel ⟨"top"⟩, .comment "", .nop, .comment "b\r", .jump ⟨"end"⟩,
    .comment "c", .case ⟨2⟩, .jump ⟨"top"⟩, .setLabel ⟨"end"⟩, .comment "d\r\n"]

/-- Its program. -/
def remarkedProgram : Program where
  ops := [.forward 3, .case ⟨2⟩, .backward 2]
  comments := .ofList [(0, ["a\n\n1#", "", "b\r"]), (1, ["c"]), (3, ["d\r\n"])]

theorem text_follows_stream_remarkedStream :
    resolve remarkedStream = .ok remarkedProgram ∧
      ∃ text, Transcript remarkedStream remarkedProgram.ops text ∧
        (assemble remarkedStream { comments := true }).run.run {} =
            (.ok (), { bytes := utf8 text }) ∧
          (assemble remarkedStream { comments := false }).run.run {} =
            (.ok (), { bytes := utf8 (withoutComments text) }) :=
  ⟨rfl, text_follows_stream rfl⟩

end TextMachine
