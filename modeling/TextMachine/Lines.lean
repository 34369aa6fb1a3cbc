/-!
# Lines of a text

A line ends at a line feed, which a carriage return may precede; a carriage return elsewhere is
text. A line end at the very end of the text starts no further line, so the empty text has no lines.
-/

namespace TextMachine

/-- The lines of a text, without their ends. -/
def lines : List Char → List (List Char)
  | [] => []
  | '\r' :: '\n' :: rest => [] :: lines rest
  | '\n' :: rest => [] :: lines rest
  | c :: rest =>
    match lines rest with
    | [] => [[c]]
    | line :: more => (c :: line) :: more

end TextMachine
