import TextMachine.Proofs.Resolution.Concatenation
import Mathlib.Logic.Relation

/-!
# What resolution does not depend on

Three things about a stream do not matter to its program. Labels are only ever compared, so their
names can be changed as long as different names stay different (`resolve_map_rename`). Markers take
no position: padding may stand anywhere, and a label may be defined on either side of the comment
or of the padding beside it (`resolve_eq_of_rewrites`). Comments are looked at by no pass that makes
operations (`map_ops_resolve_eq_of_rewrites`). All three hold of streams that do not resolve as
well, which fail in the same way.

For markers the argument is local. `Interchangeable` pieces of a stream define the same labels, take
the same room and become the same operations, wherever they start and whatever the labels stand for;
so one may take the place of the other between any two streams (`Interchangeable.between`).
-/

namespace TextMachine

/-! ## Names -/

/-- The label with another name. -/
def Label.rename (f : String → String) (l : Label) : Label :=
  ⟨f l.name⟩

/-- The instruction with other names for its labels. -/
def Instruction.rename (f : String → String) : Instruction → Instruction
  | setLabel l => setLabel (l.rename f)
  | jump l => jump (l.rename f)
  | write s r => write s r
  | case r => case r
  | comment text => comment text
  | nop => nop

/-- The error about a label with another name. -/
def ResolveError.rename (f : String → String) : ResolveError → ResolveError
  | unresolvedLabel l => unresolvedLabel (l.rename f)
  | duplicateLabel l => duplicateLabel (l.rename f)
  | selfJump l => selfJump (l.rename f)
  | zeroRegister => zeroRegister
  | outOfRange i => outOfRange i

theorem Label.rename_injective {f : String → String} (hf : Function.Injective f) :
    Function.Injective (Label.rename f) := by
  intro l l' h
  exact congrArg Label.mk (hf (congrArg Label.name h))

@[simp] theorem Instruction.width_rename (f : String → String) (i : Instruction) :
    (i.rename f).width = i.width := by
  cases i <;> rfl

theorem Instruction.definedLabel?_rename (f : String → String) (i : Instruction) :
    (i.rename f).definedLabel? = i.definedLabel?.map (Label.rename f) := by
  cases i <;> rfl

theorem mapError_bind {ε ε' α β : Type} (g : ε → ε') (x : Except ε α) (f : α → Except ε β) :
    (x >>= f).mapError g = x.mapError g >>= fun a => (f a).mapError g := by
  cases x <;> rfl

theorem definedLabels_map_rename (f : String → String) (code : List Instruction) :
    definedLabels (code.map (Instruction.rename f)) =
      (definedLabels code).map (Label.rename f) := by
  rw [definedLabels, definedLabels, List.filterMap_map, List.map_filterMap]
  exact List.filterMap_congr fun i _ => i.definedLabel?_rename f

theorem labelPositions_map_rename (f : String → String) (here : Nat) (code : List Instruction) :
    labelPositions here (code.map (Instruction.rename f)) =
      (labelPositions here code).map (Prod.map (Label.rename f) id) := by
  induction code generalizing here with
  | nil => rfl
  | cons i rest ih =>
    rw [List.map_cons, labelPositions_cons, labelPositions_cons, Instruction.width_rename, ih,
      Instruction.definedLabel?_rename, List.map_append]
    cases i.definedLabel? <;> rfl

theorem resolveComments_map_rename (f : String → String) (here : Nat) (code : List Instruction) :
    resolveComments here (code.map (Instruction.rename f)) = resolveComments here code := by
  induction code generalizing here with
  | nil => rfl
  | cons i rest ih =>
    cases i with
    | comment text => exact congrArg (Comments.prepend · here text) (ih here)
    | write s r => exact ih _
    | case r => exact ih _
    | jump l => exact ih _
    | setLabel l => exact ih _
    | nop => exact ih _

/-! ### Comparing names -/

section Injective

variable {α β : Type} [DecidableEq α] {g : α → α} (hg : Function.Injective g)
include hg

/-- Looking up a key sees nothing of it but which keys it equals. -/
theorem lookup_map_of_injective (a : α) (entries : List (α × β)) :
    (entries.map (Prod.map g id)).lookup (g a) = entries.lookup a := by
  induction entries with
  | nil => rfl
  | cons e rest ih =>
    rw [List.map_cons, lookup_cons_eq_ite, lookup_cons_eq_ite, ih]
    simp only [Prod.map_fst, Prod.map_snd, id_eq, hg.eq_iff]

/-- So does the search for a repetition. -/
theorem firstRepeated?_map_of_injective (seen xs : List α) :
    firstRepeated? (seen.map g) (xs.map g) = (firstRepeated? seen xs).map g := by
  induction xs generalizing seen with
  | nil => rfl
  | cons a rest ih =>
    rw [List.map_cons, firstRepeated?, firstRepeated?, ← List.map_cons, ih]
    simp only [List.mem_map_of_injective hg, apply_ite (Option.map g), Option.map_some]

end Injective

section Rename

variable {f : String → String} (hf : Function.Injective f)
include hf

theorem Instruction.resolve_rename (positions : List (Label × Nat)) (here : Nat)
    (i : Instruction) :
    (i.rename f).resolve (positions.map (Prod.map (Label.rename f) id)) here =
      (i.resolve positions here).mapError (ResolveError.rename f) := by
  have hreg : ∀ r : Reg, r.resolve.mapError (ResolveError.rename f) = r.resolve := by
    intro r
    unfold Reg.resolve
    split <;> rfl
  cases i with
  | write s r =>
    rw [Instruction.rename, Instruction.resolve, Instruction.resolve, mapError_bind, hreg]
    rfl
  | case r =>
    rw [Instruction.rename, Instruction.resolve, Instruction.resolve, mapError_bind, hreg]
    rfl
  | jump l =>
    rw [Instruction.rename, Instruction.resolve, Instruction.resolve,
      lookup_map_of_injective (Label.rename_injective hf)]
    cases positions.lookup l with
    | none => rfl
    | some target =>
      show ((l.rename f).resolve here target >>= _) =
        Except.mapError _ (l.resolve here target >>= _)
      rw [mapError_bind]
      unfold Label.resolve
      split
      · rfl
      · split <;> rfl
  | setLabel l => rfl
  | comment text => rfl
  | nop => rfl

theorem resolveOps_map_rename (positions : List (Label × Nat)) (here : Nat)
    (code : List Instruction) :
    resolveOps (positions.map (Prod.map (Label.rename f) id)) here
        (code.map (Instruction.rename f)) =
      (resolveOps positions here code).mapError (ResolveError.rename f) := by
  induction code generalizing here with
  | nil => rfl
  | cons i rest ih =>
    simp only [List.map_cons, resolveOps, mapError_bind, Instruction.resolve_rename hf,
      Instruction.width_rename, ih]
    rfl

/-- **Names do not matter.** A stream with other names for its labels has the same program, or the
same error about the label of the other name. -/
theorem resolve_map_rename (code : List Instruction) :
    resolve (code.map (Instruction.rename f)) =
      (resolve code).mapError (ResolveError.rename f) := by
  have hrepeated := firstRepeated?_map_of_injective (Label.rename_injective hf) []
    (definedLabels code)
  rw [← definedLabels_map_rename, List.map_nil] at hrepeated
  rw [resolve, resolve, hrepeated, labelPositions_map_rename, resolveOps_map_rename hf,
    resolveComments_map_rename]
  cases firstRepeated? [] (definedLabels code) with
  | some l => rfl
  | none =>
    show (Except.mapError _ _ >>= _) = Except.mapError _ (_ >>= _)
    rw [mapError_bind]
    rfl

end Rename

/-! ## Markers -/

/-- Pieces of a stream that define the same labels, take the same room and become the same
operations, wherever they stand. -/
structure Interchangeable (a b : List Instruction) : Prop where
  extent : extent a = extent b
  labels : ∀ here, labelPositions here a = labelPositions here b
  ops : ∀ positions here, resolveOps positions here a = resolveOps positions here b

/-- The operations of a stream are those of its first part, and then those of the second. -/
theorem resolveOps_append_eq_bind (positions : List (Label × Nat)) (here : Nat)
    (a b : List Instruction) :
    resolveOps positions here (a ++ b) = do
      let first ← resolveOps positions here a
      let second ← resolveOps positions (here + extent a) b
      return first ++ second := by
  induction a generalizing here with
  | nil =>
    show resolveOps positions here b = (resolveOps positions here b >>= .ok)
    cases resolveOps positions here b <;> rfl
  | cons i rest ih =>
    simp only [List.cons_append, resolveOps, ih, bind_assoc, pure_bind, extent_cons,
      Nat.add_assoc, List.append_assoc]

namespace Interchangeable

theorem refl (a : List Instruction) : Interchangeable a a :=
  ⟨rfl, fun _ => rfl, fun _ _ => rfl⟩

variable {a b c d : List Instruction}

theorem append (h : Interchangeable a b) (h' : Interchangeable c d) :
    Interchangeable (a ++ c) (b ++ d) where
  extent := by rw [extent_append, extent_append, h.extent, h'.extent]
  labels here := by
    rw [labelPositions_append, labelPositions_append, h.labels, h.extent, h'.labels]
  ops positions here := by
    rw [resolveOps_append_eq_bind, resolveOps_append_eq_bind, h.ops, h.extent, h'.ops]

/-- One may take the place of the other between any two streams. -/
theorem between (h : Interchangeable a b) (before after : List Instruction) :
    Interchangeable (before ++ a ++ after) (before ++ b ++ after) :=
  ((refl before).append h).append (refl after)

theorem definedLabels (h : Interchangeable a b) : definedLabels a = definedLabels b := by
  rw [← map_fst_labelPositions 0, h.labels, map_fst_labelPositions]

/-- Interchangeable streams have the same operations, or the same error. -/
theorem map_ops_resolve (h : Interchangeable a b) :
    (resolve a).map Program.ops = (resolve b).map Program.ops := by
  rw [resolve, resolve, h.definedLabels, h.labels, h.ops]
  cases firstRepeated? [] (TextMachine.definedLabels b) with
  | some l => rfl
  | none => cases resolveOps (labelPositions 0 b) 0 b <;> rfl

/-- If they have the same comments too, they have the same program. -/
theorem resolve_eq (h : Interchangeable a b)
    (hcomments : resolveComments 0 a = resolveComments 0 b) : resolve a = resolve b := by
  rw [resolve, resolve, h.definedLabels, h.labels, h.ops, hcomments]

end Interchangeable

/-- Pieces with the same comments may take each other's place in any stream. -/
theorem resolveComments_append_congr {a b : List Instruction} (hextent : extent a = extent b)
    (hcomments : ∀ here, resolveComments here a = resolveComments here b) (here : Nat)
    (before after : List Instruction) :
    resolveComments here (before ++ a ++ after) = resolveComments here (before ++ b ++ after) := by
  apply Comments.ext_get?
  intro k
  rw [get?_resolveComments_append, get?_resolveComments_append, get?_resolveComments_append,
    get?_resolveComments_append, extent_append, extent_append, hextent, hcomments]

/-! ### Changes of a stream -/

/-- One piece of a stream is replaced by a related one, wherever it stands. -/
inductive Replaces (R : List Instruction → List Instruction → Prop) :
    List Instruction → List Instruction → Prop
  | mk (before : List Instruction) {a b : List Instruction} (after : List Instruction)
    (h : R a b) : Replaces R (before ++ a ++ after) (before ++ b ++ after)

/-- Pieces of a stream are replaced by related ones, in either direction and any number of times. -/
abbrev Rewrites (R : List Instruction → List Instruction → Prop) :
    List Instruction → List Instruction → Prop :=
  Relation.EqvGen (Replaces R)

/-- Padding is put in, or a label changes places with the comment or the padding after it. -/
inductive PaddingChange : List Instruction → List Instruction → Prop
  | insertNop : PaddingChange [] [.nop]
  | passNop (l : Label) : PaddingChange [.setLabel l, .nop] [.nop, .setLabel l]
  | passComment (l : Label) (text : String) :
    PaddingChange [.setLabel l, .comment text] [.comment text, .setLabel l]

/-- A comment is put in. -/
inductive CommentChange : List Instruction → List Instruction → Prop
  | insertComment (text : String) : CommentChange [] [.comment text]

/-- What a replacement keeps, any number of them keep. -/
theorem Rewrites.map_eq {R : List Instruction → List Instruction → Prop} {γ : Type}
    (v : List Instruction → γ)
    (hstep : ∀ before a b after, R a b → v (before ++ a ++ after) = v (before ++ b ++ after))
    {code code' : List Instruction} (h : Rewrites R code code') : v code = v code' := by
  induction h with
  | rel _ _ hone =>
    obtain ⟨before, after, hR⟩ := hone
    exact hstep before _ _ after hR
  | refl _ => rfl
  | symm _ _ _ ih => exact ih.symm
  | trans _ _ _ _ _ ih ih' => exact ih.trans ih'

theorem PaddingChange.interchangeable {a b : List Instruction} (h : PaddingChange a b) :
    Interchangeable a b := by
  cases h <;> exact ⟨rfl, fun _ => rfl, fun _ _ => rfl⟩

/-- No comment passes another, or an instruction that takes room. -/
theorem PaddingChange.resolveComments_eq {a b : List Instruction} (h : PaddingChange a b)
    (here : Nat) : resolveComments here a = resolveComments here b := by
  cases h <;> rfl

theorem CommentChange.interchangeable {a b : List Instruction} (h : CommentChange a b) :
    Interchangeable a b := by
  cases h
  exact ⟨rfl, fun _ => rfl, fun _ _ => rfl⟩

/-- Padding does not matter. -/
theorem resolve_eq_of_rewrites {code code' : List Instruction}
    (h : Rewrites PaddingChange code code') : resolve code = resolve code' := by
  refine h.map_eq resolve fun before a b after hab => ?_
  have hcomments := resolveComments_append_congr hab.interchangeable.extent hab.resolveComments_eq 0
    before after
  exact (hab.interchangeable.between before after).resolve_eq hcomments

/-- Comments do not matter to the operations. -/
theorem map_ops_resolve_eq_of_rewrites {code code' : List Instruction}
    (h : Rewrites CommentChange code code') :
    (resolve code).map Program.ops = (resolve code').map Program.ops := by
  refine h.map_eq (fun code => (resolve code).map Program.ops) fun before a b after hab => ?_
  exact (hab.interchangeable.between before after).map_ops_resolve

/-- **What resolution does not depend on.** Under other names for its labels, different names
staying different, a stream has the same program, or the same error about the label of the new
name. Whether padding stands anywhere in a stream, and on which side of a comment or of padding a
label is defined, changes neither its program, comments included, nor its error. Whether comments
stand in it changes neither its operations nor its error. -/
theorem resolve_ignores_names_and_padding (code code' : List Instruction) :
    (∀ f : String → String, Function.Injective f →
      resolve (code.map (Instruction.rename f)) =
        (resolve code).mapError (ResolveError.rename f)) ∧
      (Rewrites PaddingChange code code' → resolve code = resolve code') ∧
        (Rewrites CommentChange code code' →
          (resolve code).map Program.ops = (resolve code').map Program.ops) :=
  ⟨fun _ hf => resolve_map_rename hf code, resolve_eq_of_rewrites,
    map_ops_resolve_eq_of_rewrites⟩

/-- A loop with padding in it and a comment after its label. -/
def paddedLoop : List Instruction :=
  [.setLabel ⟨"top"⟩, .comment "head", .nop, .write .one ⟨1⟩, .jump ⟨"top"⟩]

/-- The loop without the padding, and the comment before its label. -/
def trimmedLoop : List Instruction :=
  [.comment "head", .setLabel ⟨"top"⟩, .write .one ⟨1⟩, .jump ⟨"top"⟩]

/-- A jump that only a comment separates from its target, and so has no encoding. -/
def idleJump : List Instruction :=
  [.setLabel ⟨"here"⟩, .comment "nothing", .jump ⟨"here"⟩]

theorem resolve_ignores_names_and_padding_loop_idleJump :
    resolve paddedLoop = resolve trimmedLoop ∧
      resolve (idleJump.map (Instruction.rename ("x" ++ ·))) = .error (.selfJump ⟨"xhere"⟩) ∧
        (resolve [.setLabel ⟨"here"⟩, .jump ⟨"here"⟩]).map Program.ops =
          (resolve idleJump).map Program.ops := by
  refine ⟨?_, ?_, ?_⟩
  · have hpass : Replaces PaddingChange paddedLoop
        [.comment "head", .setLabel ⟨"top"⟩, .nop, .write .one ⟨1⟩, .jump ⟨"top"⟩] :=
      .mk [] [.nop, .write .one ⟨1⟩, .jump ⟨"top"⟩] (PaddingChange.passComment ⟨"top"⟩ "head")
    have hinsert : Replaces PaddingChange trimmedLoop
        [.comment "head", .setLabel ⟨"top"⟩, .nop, .write .one ⟨1⟩, .jump ⟨"top"⟩] :=
      .mk [.comment "head", .setLabel ⟨"top"⟩] [.write .one ⟨1⟩, .jump ⟨"top"⟩]
        PaddingChange.insertNop
    exact (resolve_ignores_names_and_padding paddedLoop trimmedLoop).2.1
      (.trans _ _ _ (.rel _ _ hpass) (.symm _ _ (.rel _ _ hinsert)))
  · have hinjective : Function.Injective (("x" : String) ++ ·) := fun _ _ h =>
      (String.append_right_inj "x").1 h
    rw [(resolve_ignores_names_and_padding idleJump []).1 _ hinjective]
    rfl
  · have hinsert : Replaces CommentChange [.setLabel ⟨"here"⟩, .jump ⟨"here"⟩] idleJump :=
      .mk [.setLabel ⟨"here"⟩] [.jump ⟨"here"⟩] (CommentChange.insertComment "nothing")
    exact (resolve_ignores_names_and_padding _ idleJump).2.2 (.rel _ _ hinsert)

end TextMachine
