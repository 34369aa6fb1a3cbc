import Std.Data.TreeMap
import TextMachine.Machine.Queue
import TextMachine.Op

/-!
# Register files

Every register holds a text, at first the empty one. `contents` is the view: a register file is used
only through what its registers hold.
-/

namespace TextMachine

/-- The contents of all registers, by register number. A register without an entry is empty. -/
structure Registers where
  entries : Std.TreeMap Nat Queue := {}

namespace Registers

/-- The queue of a register. -/
def queue (rs : Registers) (r : Reg) : Queue :=
  rs.entries.getD r.index {}

/-- What a register holds. -/
def contents (rs : Registers) (r : Reg) : List Char :=
  (rs.queue r).toList

/-- Replace the queue of a register. -/
def set (rs : Registers) (r : Reg) (q : Queue) : Registers :=
  ⟨rs.entries.insert r.index q⟩

/-- The register file with the given contents, a later text for a register replacing an earlier
one. -/
def ofList (texts : List (Reg × List Char)) : Registers :=
  texts.foldl (fun rs e => rs.set e.1 (.ofList e.2)) {}

/-- Append a symbol to a register. -/
def write (rs : Registers) (s : Symbol) (r : Reg) : Registers :=
  rs.set r ((rs.queue r).push s.toChar)

/-- Take the first symbol of a register. -/
def consume (rs : Registers) (r : Reg) : Option Symbol × Registers :=
  match (rs.queue r).pop? with
  | none => (none, rs)
  | some (c, q) => (some (.ofChar c), rs.set r q)

theorem queue_empty (r : Reg) : ({} : Registers).queue r = {} := by
  simp [queue]

theorem queue_set (rs : Registers) (r s : Reg) (q : Queue) :
    (rs.set r q).queue s = if s = r then q else rs.queue s := by
  obtain ⟨i⟩ := r
  obtain ⟨j⟩ := s
  simp only [queue, set, Std.TreeMap.getD_insert, Nat.compare_eq_eq, Reg.mk.injEq]
  by_cases h : i = j
  · rw [if_pos h, if_pos h.symm]
  · rw [if_neg h, if_neg (Ne.symm h)]

/-- Setting one register leaves the others alone. -/
theorem contents_set (rs : Registers) (r s : Reg) (q : Queue) :
    (rs.set r q).contents s = if s = r then q.toList else rs.contents s := by
  simp only [contents, queue_set]
  split <;> rfl

theorem contents_write (rs : Registers) (s : Symbol) (r q : Reg) :
    (rs.write s r).contents q =
      if q = r then rs.contents r ++ [s.toChar] else rs.contents q := by
  rw [write, contents_set, Queue.toList_push]
  rfl

/-- Consuming from an empty register changes nothing. -/
theorem consume_of_contents_eq_nil {rs : Registers} {r : Reg} (h : rs.contents r = []) :
    rs.consume r = (none, rs) := by
  simp [consume, Queue.pop?_eq_none_iff.2 h]

/-- Consuming takes the first character and classifies it. -/
theorem consume_of_contents_eq_cons {rs : Registers} {r : Reg} {c : Char} {cs : List Char}
    (h : rs.contents r = c :: cs) :
    (rs.consume r).1 = some (.ofChar c) ∧
      ∀ q, (rs.consume r).2.contents q = if q = r then cs else rs.contents q := by
  unfold consume
  cases hpop : (rs.queue r).pop? with
  | none => simp [contents, Queue.pop?_eq_none_iff.1 hpop] at h
  | some head =>
    have hlist : rs.contents r = head.1 :: head.2.toList := Queue.toList_of_pop? hpop
    obtain ⟨rfl, rfl⟩ := List.cons.inj (hlist.symm.trans h)
    exact ⟨rfl, fun q => contents_set rs r q head.2⟩

end Registers

end TextMachine
