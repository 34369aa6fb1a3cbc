import TextMachine.Instruction
import Mathlib.Algebra.Ring.Nat

/-!
# When two labels have one name

A label is named by a hint with a number right behind it, and the name does not say where the hint
ends. Two labels with different numbers have the same name when the digits that the larger number
has in front of those of the smaller one are the end of the other's hint, and then only
(`Label.numbered_eq_numbered_iff`): number 0 under the hint `a1` and number 10 under the hint `a`
are both `a10`. As long as no hint ends in a digit, the names differ
(`Label.numbered_ne_numbered`).
-/

namespace TextMachine

/-! ## Decimal digits -/

/-- The digits of a number in front of those of another. -/
theorem toDigits_shift {d : Nat} (hd : 0 < d) (c : Nat) :
    Nat.toDigits 10 (d * 10 ^ (Nat.toDigits 10 c).length + c) =
      Nat.toDigits 10 d ++ Nat.toDigits 10 c := by
  -- the last digit of `c` comes off both sides
  induction c using Nat.strongRecOn with
  | ind c ih =>
    by_cases hsmall : c < 10
    · rw [Nat.toDigits_append_toDigits (by decide) hd hsmall, Nat.toDigits_of_lt_base hsmall]
      congr 1
      simp [Nat.mul_comm]
    · have hq : 0 < c / 10 := by omega
      have hc : 10 * (c / 10) + c % 10 = c := Nat.div_add_mod c 10
      have hdigits : Nat.toDigits 10 (c / 10) ++ Nat.toDigits 10 (c % 10) = Nat.toDigits 10 c := by
        rw [Nat.toDigits_append_toDigits (by decide) hq (Nat.mod_lt c (by decide)), hc]
      have hlength : (Nat.toDigits 10 c).length = (Nat.toDigits 10 (c / 10)).length + 1 := by
        rw [← hdigits, List.length_append,
          Nat.toDigits_of_lt_base (Nat.mod_lt c (by decide)), List.length_singleton]
      have hsum : d * 10 ^ (Nat.toDigits 10 c).length + c =
          10 * (d * 10 ^ (Nat.toDigits 10 (c / 10)).length + c / 10) + c % 10 := by
        rw [hlength, Nat.pow_succ, ← Nat.mul_assoc]
        omega
      rw [hsum, ← Nat.toDigits_append_toDigits (by decide) (by omega) (Nat.mod_lt c (by decide)),
        ih (c / 10) (by omega), List.append_assoc, hdigits]

/-- Characters in front of the digits of a number add a multiple of a power of ten to it. -/
theorem ofDigitChars_append_toDigits (w : List Char) (c : Nat) :
    Nat.ofDigitChars 10 (w ++ Nat.toDigits 10 c) 0 =
      Nat.ofDigitChars 10 w 0 * 10 ^ (Nat.toDigits 10 c).length + c := by
  rw [Nat.ofDigitChars_append, Nat.ofDigitChars_eq_ofDigitChars_zero,
    Nat.ofDigitChars_ten_toDigits, Nat.mul_comm]

/-- Two texts, each with a number behind it, are the same when the text with the smaller number ends
in the leading digits of the larger one. -/
theorem append_toDigits_eq_iff {v w : List Char} {c e : Nat} (hlt : c < e) :
    v ++ Nat.toDigits 10 c = w ++ Nat.toDigits 10 e ↔
      ∃ d, 0 < d ∧ v = w ++ Nat.toDigits 10 d ∧
        e = d * 10 ^ (Nat.toDigits 10 c).length + c := by
  constructor
  · intro h
    rcases List.append_eq_append_iff.1 h with ⟨u, -, hu⟩ | ⟨u, hv, hu⟩
    · -- the smaller number cannot end in the digits of the larger one
      have hvalue := ofDigitChars_append_toDigits u e
      rw [← hu, Nat.ofDigitChars_ten_toDigits] at hvalue
      omega
    · have hvalue := ofDigitChars_append_toDigits u c
      rw [← hu, Nat.ofDigitChars_ten_toDigits] at hvalue
      have hpos : 0 < Nat.ofDigitChars 10 u 0 := by
        refine Nat.pos_of_ne_zero fun hzero => ?_
        rw [hzero] at hvalue
        omega
      refine ⟨Nat.ofDigitChars 10 u 0, hpos, ?_, hvalue⟩
      have hdigits := toDigits_shift hpos c
      rw [← hvalue, hu] at hdigits
      rw [hv, ← List.append_cancel_right hdigits]
  · rintro ⟨d, hd, rfl, rfl⟩
    rw [toDigits_shift hd, List.append_assoc]

/-! ## Names -/

/-- Whether the last character of a text is a decimal digit. -/
def EndsInDigit (text : String) : Prop :=
  text.toList.getLast?.any Char.isDigit = true

instance (text : String) : Decidable (EndsInDigit text) :=
  inferInstanceAs (Decidable (_ = true))

theorem endsInDigit_append_toString (text : String) (d : Nat) :
    EndsInDigit (text ++ toString d) := by
  rw [EndsInDigit, String.toList_append, Nat.toString_eq_repr, Nat.toList_repr,
    List.getLast?_append, List.getLast?_eq_some_getLast Nat.toDigits_ne_nil, Option.some_or,
    Option.any_some]
  exact Nat.isDigit_of_mem_toDigits (by decide) (by decide) (List.getLast_mem _)

namespace Label

theorem toList_name_numbered (hint : String) (c : Nat) :
    (numbered hint c).name.toList = hint.toList ++ Nat.toDigits 10 c := by
  rw [numbered, String.toList_append, Nat.toString_eq_repr, Nat.toList_repr]

/-- Two labels with different numbers have one name exactly when the hint of the smaller number is
the other's hint with the leading digits of the larger number behind it. -/
theorem numbered_eq_numbered_iff {first second : String} {c e : Nat} (hlt : c < e) :
    numbered first c = numbered second e ↔
      ∃ d, 0 < d ∧ first = second ++ toString d ∧ e = d * 10 ^ (toString c).length + c := by
  have hlength : (toString c).length = (Nat.toDigits 10 c).length := by
    rw [← String.length_toList, Nat.toString_eq_repr, Nat.toList_repr]
  have hchars : numbered first c = numbered second e ↔
      first.toList ++ Nat.toDigits 10 c = second.toList ++ Nat.toDigits 10 e := by
    rw [← toList_name_numbered, ← toList_name_numbered, String.toList_inj, Label.mk.injEq]
  have hfirst : ∀ d : Nat, first = second ++ toString d ↔
      first.toList = second.toList ++ Nat.toDigits 10 d := by
    intro d
    rw [← String.toList_inj, String.toList_append, Nat.toString_eq_repr, Nat.toList_repr]
  simp only [hchars, append_toDigits_eq_iff hlt, hfirst, hlength]

theorem numbered_ne_numbered {first second : String} {c e : Nat} (hlt : c < e)
    (hfirst : ¬ EndsInDigit first) : numbered first c ≠ numbered second e := by
  intro h
  obtain ⟨d, -, rfl, -⟩ := (numbered_eq_numbered_iff hlt).1 h
  exact hfirst (endsInDigit_append_toString second d)

end Label

end TextMachine
