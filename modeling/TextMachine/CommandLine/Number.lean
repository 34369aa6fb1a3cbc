/-!
# Register numbers on the command line

A number is written in decimal digits, with an optional `+` in front, and must lie below `2 ^ 32`.
It is read from left to right, and the first character that is wrong decides what is reported.
-/

namespace TextMachine.CommandLine

/-- Why a word is no number. -/
inductive NumberError where
  | empty
  | invalidDigit
  | tooLarge
deriving DecidableEq

namespace NumberError

/-- The wording of an error. -/
def message : NumberError → String
  | empty => "cannot parse integer from empty string"
  | invalidDigit => "invalid digit found in string"
  | tooLarge => "number too large to fit in target type"

end NumberError

/-- The least number that is too large. -/
def numberBound : Nat := 4294967296

/-- Read the digits that follow on those of `value`. -/
def readDigits (value : Nat) : List Char → Except NumberError Nat
  | [] => .ok value
  | c :: rest =>
    if c.isDigit then
      let value := value * 10 + (c.toNat - 48)
      if value < numberBound then readDigits value rest else .error .tooLarge
    else .error .invalidDigit

/-- The number that a word spells. A sign alone counts as a wrong digit. -/
def readNumber (word : String) : Except NumberError Nat :=
  match word.toList with
  | [] => .error .empty
  | ['+'] => .error .invalidDigit
  | '+' :: digits => readDigits 0 digits
  | digits => readDigits 0 digits

end TextMachine.CommandLine
