import TextMachine.Proofs.Text.Lines
import TextMachine.Proofs.Text.Writing

/-!
# Writing to an output with a limit

A program is written in many small pieces, and an output with a limit may fail at any of them, even
inside a character. Still the output cannot tell in which pieces it was written: it has the first
bytes of the whole text, as many as the limit allows, and it fails exactly when there are more
(`Output.run_forM_put_bounded`).

A piece is never looked at past the room that is left: of its characters only one more than there
are bytes of room. Since no character is without bytes, that is enough to see what fits and whether
everything does (`Output.accept_bounded`).
-/

namespace TextMachine

/-! ## Bytes -/

theorem length_le_size_utf8 (cs : List Char) : cs.length ≤ (utf8 cs).size := by
  induction cs with
  | nil => exact Nat.le_refl 0
  | cons c rest ih =>
    have hc : (utf8 [c]).size = c.utf8Size := by simp [utf8]
    have hpos := c.utf8Size_pos
    rw [← List.singleton_append, utf8_append, Array.size_append, hc, List.length_append,
      List.length_singleton]
    omega

/-- The bytes of a text, by the name that the library has for them. -/
theorem utf8_toList (s : String) : utf8 s.toList = s.toUTF8.data := by
  rw [String.toUTF8_eq_toByteArray, ← String.utf8Encode_toList, List.utf8Encode,
    List.data_toByteArray, utf8]

theorem take_append_of_le {first second : Array UInt8} {n : Nat} (h : n ≤ first.size) :
    (first ++ second).take n = first.take n := by
  simp [Array.extract_append, Nat.sub_eq_zero_of_le h]

theorem take_min_size (bytes : Array UInt8) (n : Nat) :
    bytes.take (min n bytes.size) = bytes.take n := by
  rw [Array.take_eq_extract, Array.take_eq_extract, Array.extract_eq_extract_right]
  omega

/-- A text longer than the room has more bytes than fit in the first characters alone. -/
theorem utf8_take_succ (room : Nat) (cs : List Char) :
    (utf8 (cs.take (room + 1))).take room = (utf8 cs).take room ∧
      (room < (utf8 (cs.take (room + 1))).size ↔ room < (utf8 cs).size) := by
  by_cases hshort : cs.length ≤ room + 1
  · rw [List.take_of_length_le hshort]
    exact ⟨rfl, Iff.rfl⟩
  · have hlong : room + 1 ≤ (utf8 (cs.take (room + 1))).size := by
      refine Nat.le_trans ?_ (length_le_size_utf8 _)
      rw [List.length_take]
      omega
    have hwhole : utf8 cs = utf8 (cs.take (room + 1)) ++ utf8 (cs.drop (room + 1)) := by
      rw [← utf8_append, List.take_append_drop]
    rw [hwhole, take_append_of_le (Nat.le_of_succ_le hlong), Array.size_append]
    refine ⟨rfl, ?_⟩
    omega

namespace Output

variable {limit : Nat} {bytes : Array UInt8} (hbytes : bytes.size ≤ limit)

/-! ## Pieces -/

/-- An output with a limit stores what fits of a piece, and refuses it unless all of it does. -/
theorem accept_bounded (limit : Nat) (bytes : Array UInt8) (piece : Piece) :
    accept { medium := .bounded limit, bytes } piece =
      ((utf8 piece.characters).take (limit - bytes.size),
        if limit - bytes.size < (utf8 piece.characters).size then some .full else none) := by
  obtain ⟨hstored, hrefused⟩ := utf8_take_succ (limit - bytes.size) piece.characters
  simp only [accept, Piece.take_eq_take_characters, hstored, hrefused]

include hbytes

theorem take_limit_eq_self : bytes.take limit = bytes := by
  rw [Array.take_eq_extract, Array.extract_eq_self_of_le hbytes]

theorem run_put_bounded (piece : Piece) :
    (put piece).run.run { medium := .bounded limit, bytes } =
      (if (bytes ++ utf8 piece.characters).size ≤ limit then .ok () else .error .full,
        { medium := .bounded limit, bytes := (bytes ++ utf8 piece.characters).take limit }) := by
  have hstored : bytes ++ (utf8 piece.characters).take (limit - bytes.size) =
      (bytes ++ utf8 piece.characters).take limit := by
    rw [Array.take_eq_extract, Array.take_eq_extract, Array.extract_append,
      Array.extract_eq_self_of_le hbytes, Nat.zero_sub]
  rw [run_put, accept_bounded, hstored, Array.size_append]
  by_cases hfits : bytes.size + (utf8 piece.characters).size ≤ limit
  · rw [if_pos hfits, if_neg (by omega)]
  · rw [if_neg hfits, if_pos (by omega)]

/-- Pieces are stored as far as they fit, one after the other, and refused unless all of them do. -/
theorem run_forM_put_bounded (pieces : List Piece) :
    (pieces.forM put).run.run { medium := .bounded limit, bytes } =
      (if (bytes ++ utf8 (pieces.flatMap Piece.characters)).size ≤ limit then .ok ()
        else .error .full,
        { medium := .bounded limit
          bytes := (bytes ++ utf8 (pieces.flatMap Piece.characters)).take limit }) := by
  induction pieces generalizing bytes with
  | nil =>
    show ((.ok (), { medium := .bounded limit, bytes }) : Except OutputError Unit × Output) = _
    rw [List.flatMap_nil, show utf8 [] = #[] from rfl, Array.append_empty, if_pos hbytes,
      take_limit_eq_self hbytes]
  | cons piece rest ih =>
    rw [run_forM_cons, run_put_bounded hbytes, List.flatMap_cons, utf8_append,
      ← Array.append_assoc]
    by_cases hfits : (bytes ++ utf8 piece.characters).size ≤ limit
    · -- the piece is stored whole, and the others find the room that it left
      rw [if_pos hfits, take_limit_eq_self hfits]
      exact ih hfits
    · -- the piece is cut at the limit, and nothing that follows is looked at
      have hfull := Nat.le_of_lt (Nat.not_le.1 hfits)
      rw [if_neg hfits, take_append_of_le hfull, Array.size_append, if_neg (by omega)]

end Output

/-! ## Programs -/

/-- Of a program an output with a limit has the first bytes of the text, and it takes the program
exactly when that is all of them. -/
theorem Program.run_emit_bounded (p : Program) (style : Style) (limit : Nat) :
    (p.emit style).run.run { medium := .bounded limit } =
      (if (p.text style).utf8ByteSize ≤ limit then .ok () else .error .full,
        { medium := .bounded limit, bytes := (p.text style).toUTF8.data.take limit }) := by
  have hbytes : (#[] : Array UInt8) ++ utf8 (p.characters style) = (p.text style).toUTF8.data := by
    rw [Array.empty_append, ← toList_text, utf8_toList]
  have hroom : (#[] : Array UInt8).size ≤ limit := Nat.zero_le limit
  have hrun := Output.run_forM_put_bounded hroom (p.pieces style)
  rw [← Program.characters, hbytes] at hrun
  exact hrun

/-- **A failing output has a prefix.** A program written to an output that has room for `limit`
bytes is taken exactly when its text has no more bytes than that, and the output then has the first
bytes of the text, as many as there is room for. Writing a stream that does not resolve fails with
the error of resolution and stores nothing, whatever the room; writing one that does is writing its
program, where a failure is one of the output. -/
theorem bounded_output_has_first_bytes (style : Style) (limit : Nat) :
    (∀ p : Program, (p.emit style).run.run { medium := .bounded limit } =
      (if (p.text style).utf8ByteSize ≤ limit then .ok () else .error .full,
        { medium := .bounded limit
          bytes := (p.text style).toUTF8.data.take (min limit (p.text style).utf8ByteSize) })) ∧
    ∀ code : List Instruction, (assemble code style).run.run { medium := .bounded limit } =
      match resolve code with
      | .error e => (.error (.resolve e), { medium := .bounded limit, bytes := #[] })
      | .ok p =>
        let (result, output) := (p.emit style).run.run { medium := .bounded limit }
        (result.mapError .output, output) := by
  constructor
  · intro p
    have hsize : (p.text style).utf8ByteSize = (p.text style).toUTF8.data.size := rfl
    rw [p.run_emit_bounded, hsize, take_min_size]
  · intro code
    cases h : resolve code with
    | error e => exact run_assemble_error h style _
    | ok p => exact run_assemble h style _

-- the third byte is the first of the two that encode the superscript in the comment
example : ((({ comments := .ofList [(0, ["1"])] } : Program).emit {}).run.run
    { medium := .bounded 3 }).2.bytes = #[0x3b, 0x20, 0xc2] := by decide

end TextMachine
