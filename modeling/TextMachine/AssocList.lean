/-!
# Association lists

Looking up a key in a list of pairs, as an `if` on the first of them.
-/

namespace TextMachine

variable {α β : Type} [DecidableEq α]

theorem lookup_cons_eq_ite (a : α) (e : α × β) (rest : List (α × β)) :
    (e :: rest).lookup a = if a = e.1 then some e.2 else rest.lookup a := by
  obtain ⟨k, b⟩ := e
  rw [List.lookup_cons]
  by_cases h : a = k
  · subst h
    simp
  · rw [if_neg h, beq_false_of_ne h]

/-- A key that no pair has is not found. -/
theorem lookup_eq_none_of_forall_ne {a : α} {entries : List (α × β)}
    (h : ∀ e ∈ entries, a ≠ e.1) : entries.lookup a = none := by
  rw [List.lookup_eq_none_iff]
  intro e he
  exact bne_iff_ne.2 (h e he)

end TextMachine
