/-!
# Character queues

The contents of a register: characters are appended at the end and taken from the front. `toList` is
the view that says what a queue holds; both operations take constant time on average.
-/

namespace TextMachine

/-- A queue of characters. `back` holds the latest ones, last first. -/
structure Queue where
  front : List Char := []
  back : List Char := []

namespace Queue

/-- The characters of a queue, first to last. -/
def toList (q : Queue) : List Char :=
  q.front ++ q.back.reverse

/-- The queue that holds the given characters. -/
def ofList (cs : List Char) : Queue :=
  { front := cs }

/-- Append a character. -/
def push (q : Queue) (c : Char) : Queue :=
  { q with back := c :: q.back }

/-- Take the first character; `none` if there is none. -/
def pop? (q : Queue) : Option (Char × Queue) :=
  match q.front with
  | c :: front => some (c, { q with front })
  | [] =>
    match q.back.reverse with
    | c :: front => some (c, { front })
    | [] => none

@[simp] theorem toList_empty : ({} : Queue).toList = [] := rfl

@[simp] theorem toList_ofList (cs : List Char) : (ofList cs).toList = cs := by
  simp [ofList, toList]

@[simp] theorem toList_push (q : Queue) (c : Char) : (q.push c).toList = q.toList ++ [c] := by
  simp [push, toList]

theorem pop?_eq_none_iff {q : Queue} : q.pop? = none ↔ q.toList = [] := by
  unfold pop? toList
  split
  next h => simp [h]
  next h =>
    rw [h, List.nil_append]
    split
    next hb => simp [hb]
    next hb => simp [hb]

theorem toList_of_pop? {q q' : Queue} {c : Char} (h : q.pop? = some (c, q')) :
    q.toList = c :: q'.toList := by
  unfold pop? at h
  split at h
  next hf =>
    cases h
    rw [toList, hf]
    rfl
  next hf =>
    split at h
    next hb =>
      cases h
      rw [toList, toList, hf, hb, List.nil_append, List.reverse_nil, List.append_nil]
    next => cases h

end Queue

end TextMachine
