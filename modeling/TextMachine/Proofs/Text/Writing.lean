import TextMachine.Output

/-!
# Writing programs

What becomes of a program that is written to an output, piece by piece, as far as it depends on the
whole text only. An output that keeps what it is given has the text afterwards
(`Program.run_emit_keeping`, `Output.text_utf8`), one that discards it takes the text and has
nothing, and one that refuses every byte fails unless there is no text at all. A stream that
resolves is written as its program (`run_assemble`), and nothing is written of one that does not
(`run_assemble_error`).
-/

namespace TextMachine

/-! ## Bytes -/

theorem utf8_append (first second : List Char) :
    utf8 (first ++ second) = utf8 first ++ utf8 second := by
  simp [utf8]

namespace Output

/-- The text of an output is read off its bytes. -/
theorem text_utf8 (medium : Medium) (cs : List Char) :
    text { medium, bytes := utf8 cs } = String.ofList cs := by
  have hbytes : (⟨(utf8 cs).take ((utf8 cs).size - 0)⟩ : ByteArray) = cs.utf8Encode := by
    apply ByteArray.ext
    rw [List.utf8Encode, List.data_toByteArray, Nat.sub_zero, Array.take_eq_extract,
      Array.extract_size, utf8]
  have hvalid : String.fromUTF8? cs.utf8Encode = some (String.ofList cs) := by
    rw [String.fromUTF8?, dif_pos ⟨cs, rfl⟩]
    rfl
  rw [text, List.findSome?_cons, hbytes, hvalid]
  rfl

/-! ## Pieces -/

theorem run_put (piece : Piece) (o : Output) :
    (put piece).run.run o =
      ((match (o.accept piece).2 with
        | some e => .error e
        | none => .ok ()), { o with bytes := o.bytes ++ (o.accept piece).1 }) := by
  show (do
      set { o with bytes := o.bytes ++ (o.accept piece).1 }
      match (o.accept piece).2 with
      | some e => throw e
      | none => return : Emit OutputError Unit).run.run o = _
  cases (o.accept piece).2 <;> rfl

/-- A failure skips the pieces that follow. -/
theorem run_forM_cons {σ ε : Type} (put : Piece → ExceptT ε (StateM σ) Unit) (piece : Piece)
    (rest : List Piece) (s : σ) :
    ((piece :: rest).forM put).run.run s =
      match (put piece).run.run s with
      | (.ok (), s) => (rest.forM put).run.run s
      | (.error e, s) => (.error e, s) := by
  show (put piece >>= fun _ => rest.forM put).run.run s = _
  rw [ExceptT.run_bind, StateT.run_bind]
  rcases (put piece).run.run s with ⟨e | u, s'⟩ <;> rfl

theorem run_forM_put_keeping (pieces : List Piece) (bytes : Array UInt8) :
    (pieces.forM put).run.run { medium := .keeping, bytes } =
      (.ok (),
        { medium := .keeping, bytes := bytes ++ utf8 (pieces.flatMap Piece.characters) }) := by
  induction pieces generalizing bytes with
  | nil =>
    show ((.ok (), { medium := .keeping, bytes }) : Except OutputError Unit × Output) = _
    simp [utf8]
  | cons piece rest ih =>
    rw [run_forM_cons, run_put, List.flatMap_cons, utf8_append, ← Array.append_assoc]
    exact ih (bytes ++ utf8 piece.characters)

theorem run_forM_put_discarding (pieces : List Piece) (bytes : Array UInt8) :
    (pieces.forM put).run.run { medium := .discarding, bytes } =
      (.ok (), { medium := .discarding, bytes }) := by
  induction pieces with
  | nil => rfl
  | cons piece rest ih =>
    rw [run_forM_cons, run_put]
    show (rest.forM put).run.run { medium := .discarding, bytes := bytes ++ #[] } = _
    rw [Array.append_empty, ih]

/-- An output that takes no byte takes pieces without any. -/
theorem run_forM_put_refusing (why : OutputError) (pieces : List Piece) (bytes : Array UInt8) :
    (pieces.forM put).run.run { medium := .refusing why, bytes } =
      (if pieces.flatMap Piece.characters = [] then .ok () else .error why,
        { medium := .refusing why, bytes }) := by
  induction pieces with
  | nil => rfl
  | cons piece rest ih =>
    have hempty : (piece.take 1).isEmpty = true ↔ piece.characters = [] := by
      rw [Piece.take_eq_take_characters, List.isEmpty_iff, List.take_eq_nil_iff]
      simp
    rw [run_forM_cons, run_put, List.flatMap_cons]
    by_cases hpiece : piece.characters = []
    · have haccept : accept { medium := .refusing why, bytes } piece = (#[], none) := by
        simp [accept, hempty.2 hpiece]
      rw [haccept, hpiece, List.nil_append]
      show (rest.forM put).run.run { medium := .refusing why, bytes := bytes ++ #[] } = _
      rw [Array.append_empty, ih]
    · have haccept : accept { medium := .refusing why, bytes } piece = (#[], some why) := by
        simp [accept, mt hempty.1 hpiece]
      rw [haccept, if_neg (by simp [hpiece])]
      show (Except.error why, ({ medium := .refusing why, bytes := bytes ++ #[] } : Output)) = _
      rw [Array.append_empty]

end Output

/-! ## Programs -/

namespace Program

variable (p : Program) (style : Style) (bytes : Array UInt8)

theorem run_emit_keeping :
    (p.emit style).run.run { medium := .keeping, bytes } =
      (.ok (), { medium := .keeping, bytes := bytes ++ utf8 (p.characters style) }) :=
  Output.run_forM_put_keeping (p.pieces style) bytes

theorem run_emit_discarding :
    (p.emit style).run.run { medium := .discarding, bytes } =
      (.ok (), { medium := .discarding, bytes }) :=
  Output.run_forM_put_discarding (p.pieces style) bytes

theorem run_emit_refusing (why : OutputError) :
    (p.emit style).run.run { medium := .refusing why, bytes } =
      (if p.characters style = [] then .ok () else .error why,
        { medium := .refusing why, bytes }) :=
  Output.run_forM_put_refusing why (p.pieces style) bytes

end Program

/-- A stream that resolves is written as its program. -/
theorem run_assemble {code : List Instruction} {p : Program} (h : resolve code = .ok p)
    (style : Style) (o : Output) :
    (assemble code style).run.run o =
      (((p.emit style).run.run o).1.mapError .output, ((p.emit style).run.run o).2) := by
  unfold assemble assembleBy
  rw [h]
  show (Except.mapError AssembleError.output <$> (p.emit style).run).run o = _
  rfl

/-- A stream that does not resolve leaves the output as it was. -/
theorem run_assemble_error {code : List Instruction} {e : ResolveError}
    (h : resolve code = .error e) (style : Style) (o : Output) :
    (assemble code style).run.run o = (.error (.resolve e), o) := by
  unfold assemble assembleBy
  rw [h]
  rfl

end TextMachine
