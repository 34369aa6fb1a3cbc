import Mathlib.Data.List.Induction
import TextMachine.CommandLine.Number

/-!
# Numerals

Which words spell a number (`IsNumeral`), and what is held against one that spells none
(`Misspelt`), both said of the word as a whole. Every word is one or the other
(`isNumeral_or_misspelt`), and reading it tells which (`readNumber_of_isNumeral`,
`readNumber_of_misspelt`).
-/

namespace TextMachine.CommandLine

/-! ## Words and numbers -/

/-- The characters of a numeral after its sign. A sign alone is not taken for one. -/
def unsigned : List Char → List Char
  | '+' :: c :: rest => c :: rest
  | cs => cs

/-- The number that some digits are in decimal. -/
def decimal (digits : List Char) : Nat :=
  Nat.ofDigitChars 10 digits 0

/-- A word spells a number: it has digits, only digits apart from its sign, and they make up that
number, which fits in 32 bits. -/
structure IsNumeral (word : String) (n : Nat) : Prop where
  nonempty : word ≠ ""
  digits : ∀ c ∈ unsigned word.toList, c.isDigit = true
  value : decimal (unsigned word.toList) = n
  fits : n < 4294967296

/-- What is held against a word that spells no number. It is read from left to right, and the first
character that is no digit, or with which the number becomes too large, is decisive. -/
inductive Misspelt (word : String) : String → Prop
  | empty (hword : word = "") : Misspelt word "cannot parse integer from empty string"
  | badDigit {before rest : List Char} {c : Char}
      (hword : unsigned word.toList = before ++ c :: rest)
      (hdigits : ∀ d ∈ before, d.isDigit = true) (hfits : decimal before < 4294967296)
      (hc : c.isDigit = false) : Misspelt word "invalid digit found in string"
  | tooLarge {before rest : List Char} {c : Char}
      (hword : unsigned word.toList = before ++ c :: rest)
      (hdigits : ∀ d ∈ before, d.isDigit = true) (hfits : decimal before < 4294967296)
      (hc : c.isDigit = true) (hlarge : 4294967296 ≤ decimal (before ++ [c])) :
      Misspelt word "number too large to fit in target type"

theorem decimal_concat (digits : List Char) (c : Char) :
    decimal (digits ++ [c]) = 10 * decimal digits + (c.toNat - 48) := by
  rw [decimal, Nat.ofDigitChars_append, Nat.ofDigitChars_cons]
  rfl

/-- Digits make up a number that fits, or else there is a first one too many or a first character
that is no digit. -/
theorem digits_cases (cs : List Char) :
    ((∀ c ∈ cs, c.isDigit = true) ∧ decimal cs < 4294967296) ∨
      ∃ before c rest, cs = before ++ c :: rest ∧
        (∀ d ∈ before, d.isDigit = true) ∧ decimal before < 4294967296 ∧
          (c.isDigit = false ∨ c.isDigit = true ∧ 4294967296 ≤ decimal (before ++ [c])) := by
  -- the induction takes characters off the right end: the last one is looked at after all others
  induction cs using List.reverseRecOn with
  | nil => exact .inl ⟨nofun, by decide⟩
  | append_singleton cs c ih =>
    rcases ih with ⟨hdigits, hfits⟩ | ⟨before, d, rest, rfl, h⟩
    · cases hc : c.isDigit with
      | false => exact .inr ⟨cs, c, [], rfl, hdigits, hfits, .inl hc⟩
      | true =>
        by_cases hlarge : 4294967296 ≤ decimal (cs ++ [c])
        · exact .inr ⟨cs, c, [], rfl, hdigits, hfits, .inr ⟨hc, hlarge⟩⟩
        · refine .inl ⟨?_, Nat.not_le.1 hlarge⟩
          simpa [or_imp, forall_and, hc] using hdigits
    · exact .inr ⟨before, d, rest ++ [c], by simp, h⟩

/-- Every word spells a number or has something held against it. -/
theorem isNumeral_or_misspelt (word : String) :
    (∃ n, IsNumeral word n) ∨ ∃ cause, Misspelt word cause := by
  by_cases hempty : word = ""
  · exact .inr ⟨_, .empty hempty⟩
  · rcases digits_cases (unsigned word.toList) with ⟨hdigits, hfits⟩ | h
    · exact .inl ⟨_, hempty, hdigits, rfl, hfits⟩
    · obtain ⟨before, c, rest, hword, hdigits, hfits, hc | ⟨hc, hlarge⟩⟩ := h
      · exact .inr ⟨_, .badDigit hword hdigits hfits hc⟩
      · exact .inr ⟨_, .tooLarge hword hdigits hfits hc hlarge⟩

/-! ## Reading -/

/-- Digits are read one after the other as long as their number fits. -/
theorem readDigits_append {digits : List Char} (rest : List Char)
    (hdigits : ∀ c ∈ digits, c.isDigit = true) (hfits : decimal digits < 4294967296) :
    readDigits 0 (digits ++ rest) = readDigits (decimal digits) rest := by
  induction digits using List.reverseRecOn generalizing rest with
  | nil => rfl
  | append_singleton digits c ih =>
    rw [decimal_concat] at hfits
    rw [List.append_assoc, ih _ (fun d hd => hdigits d (by simp [hd])) (by omega),
      List.singleton_append, readDigits, if_pos (hdigits c (by simp)), decimal_concat,
      Nat.mul_comm 10]
    exact if_pos (by rw [Nat.mul_comm]; exact hfits)

/-- A word is read without its sign. -/
theorem readNumber_eq {word : String} (h : word ≠ "") :
    readNumber word = readDigits 0 (unsigned word.toList) := by
  unfold readNumber
  split
  next hnil => exact absurd (String.toList_eq_nil_iff.1 hnil) h
  next hsign => rw [hsign]; rfl
  next digits hne hcons =>
    obtain ⟨c, rest, rfl⟩ := List.exists_cons_of_ne_nil hne
    rw [hcons]
    rfl
  next hne hnosign =>
    rw [unsigned]
    intro c rest hcons
    exact absurd hcons (hnosign (c :: rest))

theorem readNumber_of_isNumeral {word : String} {n : Nat} (h : IsNumeral word n) :
    readNumber word = .ok n := by
  have hread := readDigits_append [] h.digits (by rw [h.value]; exact h.fits)
  rw [List.append_nil, h.value] at hread
  rw [readNumber_eq h.nonempty, hread, readDigits]

theorem readNumber_of_misspelt {word cause : String} (h : Misspelt word cause) :
    ∃ e, readNumber word = .error e ∧ e.message = cause := by
  have hne : ∀ {before rest : List Char} {c : Char},
      unsigned word.toList = before ++ c :: rest → word ≠ "" := by
    rintro before rest c hword rfl
    simp [unsigned] at hword
  cases h with
  | empty hword => exact ⟨.empty, by rw [hword]; rfl, rfl⟩
  | badDigit hword hdigits hfits hc =>
    refine ⟨.invalidDigit, ?_, rfl⟩
    rw [readNumber_eq (hne hword), hword, readDigits_append _ hdigits hfits, readDigits, hc]
    rfl
  | tooLarge hword hdigits hfits hc hlarge =>
    refine ⟨.tooLarge, ?_, rfl⟩
    rw [decimal_concat, Nat.mul_comm] at hlarge
    rw [readNumber_eq (hne hword), hword, readDigits_append _ hdigits hfits, readDigits, if_pos hc]
    exact if_neg (Nat.not_lt.2 hlarge)

end TextMachine.CommandLine
