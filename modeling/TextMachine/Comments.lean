import TextMachine.AssocList

/-!
# Comments by position

A resolved program keeps its comments apart from its operations: each position may carry a list of
texts, which stand before the operation at that position. The entries are kept in increasing order
of position, so two collections are equal exactly when they agree everywhere (`Comments.ext_get?`).
-/

namespace TextMachine

/-- Lists of comment texts, by position. An entry may be present and empty. -/
structure Comments where
  entries : List (Nat × List String)
  sorted : entries.Pairwise fun a b => a.1 < b.1
deriving DecidableEq

namespace Comments

/-- No comments. -/
def empty : Comments := ⟨[], .nil⟩

/-- Apply `f` to the texts at position `k` of an ordered list of entries, where no entry counts as
no texts. -/
def modifyEntries (k : Nat) (f : List String → List String) :
    List (Nat × List String) → List (Nat × List String)
  | [] => [(k, f [])]
  | (j, texts) :: rest =>
    if k < j then (k, f []) :: (j, texts) :: rest
    else if k = j then (k, f texts) :: rest
    else (j, texts) :: modifyEntries k f rest

theorem mem_modifyEntries {k : Nat} {f : List String → List String}
    {entries : List (Nat × List String)} {e : Nat × List String}
    (h : e ∈ modifyEntries k f entries) : e.1 = k ∨ e ∈ entries := by
  induction entries with
  | nil => simp_all [modifyEntries]
  | cons head rest ih =>
    unfold modifyEntries at h
    split at h
    · rcases List.mem_cons.1 h with rfl | h
      · exact .inl rfl
      · exact .inr h
    · split at h
      · rcases List.mem_cons.1 h with rfl | h
        · exact .inl rfl
        · exact .inr (List.mem_cons_of_mem _ h)
      · rcases List.mem_cons.1 h with rfl | h
        · exact .inr List.mem_cons_self
        · exact (ih h).imp_right (List.mem_cons_of_mem _)

theorem sorted_modifyEntries (k : Nat) (f : List String → List String)
    {entries : List (Nat × List String)} (h : entries.Pairwise fun a b => a.1 < b.1) :
    (modifyEntries k f entries).Pairwise fun a b => a.1 < b.1 := by
  induction entries with
  | nil => simp [modifyEntries]
  | cons head rest ih =>
    obtain ⟨hhead, hrest⟩ := List.pairwise_cons.1 h
    unfold modifyEntries
    split
    next hlt =>
      refine List.pairwise_cons.2 ⟨fun e he => ?_, h⟩
      rcases List.mem_cons.1 he with rfl | he
      · exact hlt
      · exact Nat.lt_trans hlt (hhead e he)
    next hlt =>
      split
      next heq => exact List.pairwise_cons.2 ⟨fun e he => heq ▸ hhead e he, hrest⟩
      next hne =>
        refine List.pairwise_cons.2 ⟨fun e he => ?_, ih hrest⟩
        rcases mem_modifyEntries he with rfl | he
        · exact Nat.lt_of_le_of_ne (Nat.not_lt.1 hlt) (Ne.symm hne)
        · exact hhead e he

/-- Apply `f` to the texts at position `k`, where no entry counts as no texts. -/
def modify (c : Comments) (k : Nat) (f : List String → List String) : Comments :=
  ⟨modifyEntries k f c.entries, sorted_modifyEntries k f c.sorted⟩

/-- Put one text in front of those at position `k`. -/
def prepend (c : Comments) (k : Nat) (text : String) : Comments :=
  c.modify k (text :: ·)

/-- Make `texts` the texts at position `k`. -/
def insert (c : Comments) (k : Nat) (texts : List String) : Comments :=
  c.modify k fun _ => texts

/-- The collection with the given entries, a later entry for a position replacing an earlier one. -/
def ofList (entries : List (Nat × List String)) : Comments :=
  entries.foldl (fun c e => c.insert e.1 e.2) empty

/-- The texts at position `k`, if there is an entry for it. -/
def get? (c : Comments) (k : Nat) : Option (List String) :=
  c.entries.lookup k

/-- The texts at position `k`. -/
def textsAt (c : Comments) (k : Nat) : List String :=
  (c.get? k).getD []

@[simp] theorem get?_empty (k : Nat) : empty.get? k = none := rfl

theorem lookup_modifyEntries (k j : Nat) (f : List String → List String)
    {entries : List (Nat × List String)} (h : entries.Pairwise fun a b => a.1 < b.1) :
    (modifyEntries k f entries).lookup j =
      if j = k then some (f ((entries.lookup k).getD [])) else entries.lookup j := by
  induction entries with
  | nil =>
    rw [modifyEntries, lookup_cons_eq_ite, List.lookup_nil, List.lookup_nil, Option.getD_none]
  | cons head rest ih =>
    obtain ⟨hhead, hrest⟩ := List.pairwise_cons.1 h
    have hnone : k ≤ head.1 → rest.lookup k = none := fun hk =>
      lookup_eq_none_of_forall_ne fun e he => by
        have := hhead e he
        omega
    unfold modifyEntries
    split
    next hlt =>
      rw [lookup_cons_eq_ite, lookup_cons_eq_ite k, if_neg (Nat.ne_of_lt hlt),
        hnone (Nat.le_of_lt hlt), Option.getD_none]
    next hlt =>
      split
      next heq =>
        subst heq
        rw [lookup_cons_eq_ite, lookup_cons_eq_ite j, lookup_cons_eq_ite head.1, if_pos rfl,
          Option.getD_some]
        split <;> rfl
      next hne =>
        rw [lookup_cons_eq_ite, lookup_cons_eq_ite j, lookup_cons_eq_ite k, if_neg hne, ih hrest]
        by_cases hj : j = k
        · subst hj
          rw [if_neg hne, if_pos rfl, if_pos rfl]
        · rw [if_neg hj, if_neg hj]

/-- Modifying one position leaves the others alone. -/
theorem get?_modify (c : Comments) (k j : Nat) (f : List String → List String) :
    (c.modify k f).get? j = if j = k then some (f (c.textsAt k)) else c.get? j :=
  lookup_modifyEntries k j f c.sorted

/-- Ordered lists of entries in which every position has the same texts are equal. -/
theorem eq_of_lookup_eq {xs ys : List (Nat × List String)}
    (hxs : xs.Pairwise fun a b => a.1 < b.1) (hys : ys.Pairwise fun a b => a.1 < b.1)
    (h : ∀ k, xs.lookup k = ys.lookup k) : xs = ys := by
  induction xs generalizing ys with
  | nil =>
    cases ys with
    | nil => rfl
    | cons y ys =>
      have hy := h y.1
      rw [lookup_cons_eq_ite, if_pos rfl] at hy
      cases hy
  | cons x xs ih =>
    cases ys with
    | nil =>
      have hx := h x.1
      rw [lookup_cons_eq_ite, if_pos rfl] at hx
      cases hx
    | cons y ys =>
      obtain ⟨hx, hxs'⟩ := List.pairwise_cons.1 hxs
      obtain ⟨hy, hys'⟩ := List.pairwise_cons.1 hys
      have hnx : ∀ i, i ≤ x.1 → xs.lookup i = none := fun i hi =>
        lookup_eq_none_of_forall_ne fun e he => by
          have := hx e he
          omega
      have hny : ∀ i, i ≤ y.1 → ys.lookup i = none := fun i hi =>
        lookup_eq_none_of_forall_ne fun e he => by
          have := hy e he
          omega
      have hfst : x.1 = y.1 := by
        by_cases hle : x.1 ≤ y.1
        · have h1 := h x.1
          rw [lookup_cons_eq_ite, if_pos rfl, lookup_cons_eq_ite, hny _ hle] at h1
          by_cases heq : x.1 = y.1
          · exact heq
          · rw [if_neg heq] at h1
            cases h1
        · have h2 := h y.1
          rw [lookup_cons_eq_ite, lookup_cons_eq_ite, if_pos rfl, hnx _ (by omega),
            if_neg (by omega)] at h2
          cases h2
      have hsnd : x.2 = y.2 := by
        have h1 := h x.1
        rw [lookup_cons_eq_ite, if_pos rfl, lookup_cons_eq_ite, if_pos hfst] at h1
        exact Option.some.inj h1
      have hxy : x = y := Prod.ext hfst hsnd
      subst hxy
      refine congrArg (x :: ·) (ih hxs' hys' fun k => ?_)
      have hk := h k
      rw [lookup_cons_eq_ite, lookup_cons_eq_ite] at hk
      by_cases hkx : k = x.1
      · rw [hnx k (Nat.le_of_eq hkx), hny k (Nat.le_of_eq hkx)]
      · rwa [if_neg hkx, if_neg hkx] at hk

/-- Collections that agree at every position are equal. -/
theorem ext_get? {c d : Comments} (h : ∀ k, c.get? k = d.get? k) : c = d := by
  obtain ⟨xs, hxs⟩ := c
  obtain ⟨ys, hys⟩ := d
  obtain rfl : xs = ys := eq_of_lookup_eq hxs hys h
  rfl

end Comments

end TextMachine
