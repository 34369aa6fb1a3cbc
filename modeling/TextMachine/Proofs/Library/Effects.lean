import TextMachine.Proofs.Structured.Labels
import TextMachine.Proofs.Structured.Timing
import Mathlib.Tactic.Ring

/-!
# What the routines of the library do

`Call.effect` says what each routine is for, on the contents of the registers, and `Call.time` how
many steps it takes. The code of a routine has this effect, in this time, on words over `1` and `#`
as long as the temporary it takes is empty (`Structured.finishesIn_call`), and it leaves the
temporary empty. So the routines can be used one after another, with the same temporary:
`library_effects` says what becomes of any list of them.
-/

namespace TextMachine

/-! ## Effects and times -/

/-- The effect of a routine on what the registers hold. -/
def Call.effect : Call Reg → Store → Store
  | move source target, st =>
    Function.update (Function.update st target (st target ++ st source)) source []
  | copy source target, st => Function.update st target (st target ++ st source)
  | clear r, st => Function.update st r []
  | swap left right, st => Function.update (Function.update st left (st right)) right (st left)
  | reverse source target, st =>
    Function.update (Function.update st target ((st source).reverse ++ st target)) source []

/-- The number of steps that a routine takes. -/
def Call.time : Call Reg → Store → Nat
  | move source _, st => 4 * (st source).length + 3
  | copy source _, st => 9 * (st source).length + 6
  | clear r, st => 4 * (st r).count '1' + 3 * (st r).count '#' + 3
  | swap left right, st => 8 * (st left).length + 4 * (st right).length + 9
  | reverse source target, st =>
    4 * (st source).length ^ 2 + 8 * (st source).length * (st target).length +
      10 * (st source).length + 3

/-- A text over the alphabet of the machine. -/
def IsWord (text : List Char) : Prop :=
  ∀ c ∈ text, c = '1' ∨ c = '#'

/-- Every register holds a word. -/
def Store.Words (st : Store) : Prop :=
  ∀ r, IsWord (st r)

namespace IsWord

theorem nil : IsWord [] :=
  fun _ h => absurd h List.not_mem_nil

theorem cons (s : Symbol) {text : List Char} (h : IsWord text) : IsWord (s.toChar :: text) := by
  intro c hc
  rcases List.mem_cons.1 hc with rfl | hc
  · cases s
    · exact .inl rfl
    · exact .inr rfl
  · exact h c hc

theorem append {a b : List Char} (ha : IsWord a) (hb : IsWord b) : IsWord (a ++ b) := by
  intro c hc
  rcases List.mem_append.1 hc with hc | hc
  · exact ha c hc
  · exact hb c hc

theorem reverse {text : List Char} (h : IsWord text) : IsWord text.reverse :=
  fun c hc => h c (List.mem_reverse.1 hc)

theorem tail {text : List Char} (h : IsWord text) : IsWord text.tail :=
  fun c hc => h c (List.mem_of_mem_tail hc)

/-- On words, reading a character as a symbol and writing the symbol gives the character back. -/
theorem toChar_ofChar {c : Char} (h : c = '1' ∨ c = '#') : (Symbol.ofChar c).toChar = c := by
  rcases h with rfl | rfl <;> rfl

end IsWord

namespace Store.Words

theorem update {st : Store} (h : st.Words) (r : Reg) {text : List Char} (htext : IsWord text) :
    Store.Words (Function.update st r text) := by
  intro q
  rw [Function.update_apply]
  split
  · exact htext
  · exact h q

theorem drop {st : Store} (h : st.Words) (r : Reg) : (st.drop r).Words :=
  h.update r (h r).tail

theorem write {st : Store} (h : st.Words) (s : Symbol) (r : Reg) : (st.write s r).Words :=
  h.update r ((h r).append (IsWord.nil.cons s))

end Store.Words

namespace Call

theorem words_effect {st : Store} (h : st.Words) (c : Call Reg) : (c.effect st).Words := by
  cases c with
  | move source target =>
    exact (h.update target ((h target).append (h source))).update source .nil
  | copy source target => exact h.update target ((h target).append (h source))
  | clear r => exact h.update r .nil
  | swap left right => exact (h.update left (h right)).update right (h left)
  | reverse source target =>
    exact (h.update target ((h source).reverse.append (h target))).update source .nil

/-- A routine changes nothing but its operands. -/
theorem effect_of_not_mem {c : Call Reg} {r : Reg} (h : r ∉ c.operands) (st : Store) :
    c.effect st r = st r := by
  cases c <;>
    simp only [operands, List.mem_cons, List.not_mem_nil, or_false, not_or] at h <;>
    simp [effect, Function.update_of_ne, h]

end Call

/-! ## The loops of the routines -/

namespace Structured

variable {n temp : Nat} {st : Store} {source target : Reg}

/-- Passes that write the symbol to each of the targets append the source to all of them. -/
theorem loopEffect_append {effect : Symbol → Store → Store} (targets : List Reg)
    (hsource : source ∉ targets)
    (heffect : ∀ s st q, effect s st q = if q ∈ targets then st q ++ [s.toChar] else st q)
    (hword : IsWord (st source)) (q : Reg) :
    loopEffect source effect st q =
      if q = source then [] else if q ∈ targets then st q ++ st source else st q := by
  induction hcontents : st source generalizing st with
  | nil =>
    rw [loopEffect_of_eq_nil hcontents]
    by_cases hq : q = source
    · rw [if_pos hq, hq, hcontents]
    · rw [if_neg hq, List.append_nil, ite_self]
  | cons c cs ih =>
    rw [hcontents] at hword
    have hrest : effect (.ofChar c) (st.drop source) source = cs := by
      rw [heffect, if_neg hsource, Store.drop_self, hcontents, List.tail_cons]
    have hcs : IsWord cs := hword.tail
    -- the first symbol is at the end of the targets already when the rest is appended
    rw [loopEffect_of_eq_cons hcontents hrest, ih (hrest.symm ▸ hcs) hrest]
    by_cases hq : q = source
    · rw [if_pos hq, if_pos hq]
    · rw [if_neg hq, if_neg hq, heffect, Store.drop_of_ne st hq,
        IsWord.toChar_ofChar (hword c List.mem_cons_self)]
      split
      · exact List.append_assoc _ _ _
      · rfl

theorem loopEffect_write (hne : source ≠ target) (hword : IsWord (st source)) :
    loopEffect source (fun s st => st.write s target) st =
      (Call.move source target).effect st := by
  funext q
  rw [loopEffect_append [target] (by simpa using hne) _ hword]
  · simp only [Call.effect, Function.update_apply, List.mem_singleton]
    split_ifs with hsource htarget
    · rfl
    · rw [htarget]
    · rfl
  · intro s st q
    simp only [Store.write, Function.update_apply, List.mem_singleton]
    split_ifs with hq
    · rw [hq]
    · rfl

theorem finishesIn_move (hne : source ≠ target) (hword : IsWord (st source)) :
    (move source target : Structured n).FinishesIn temp st ((Call.move source target).time st)
      ((Call.move source target).effect st) := by
  -- each symbol takes a step to write and the three of a pass
  have hloop : (repeatOn source (write .one target) (write .hash target) : Structured n).FinishesIn
      temp st (4 * (st source).length + 3)
      (loopEffect source (fun s st => st.write s target) st) := by
    refine finishesIn_repeatOn (fun s => write s target) (fun _ => True) (fun _ _ => 1)
      (fun st => 4 * (st source).length + 3) (fun s _ _ => finishesIn_write s target)
      (fun s st _ => Function.update_of_ne hne _ st) (fun _ _ _ => trivial) (fun _ _ => trivial)
      ?_ ?_ trivial
    · intro st h
      rw [h, List.length_nil]
    · intro st c cs h
      rw [Store.write, Function.update_of_ne hne, Store.drop_self, h, List.tail_cons,
        List.length_cons]
      omega
  exact ((finishesIn_operands _).seq hloop).of_eq (Nat.zero_add _) (loopEffect_write hne hword)

/-! A copy writes each symbol twice, to the target and to a register that gives it back. -/

section Copies

variable {aux : Reg}

theorem writeBoth_apply (s : Symbol) (st : Store) (q : Reg) (hne : target ≠ aux) :
    ((st.write s target).write s aux) q =
      if q ∈ [target, aux] then st q ++ [s.toChar] else st q := by
  simp only [Store.write, Function.update_apply, List.mem_cons, List.not_mem_nil, or_false]
  grind

theorem writeBoth_source (s : Symbol) (st : Store) (hsource : source ≠ target)
    (haux : source ≠ aux) : ((st.write s target).write s aux) source = st source := by
  rw [Store.write, Function.update_of_ne haux, Store.write, Function.update_of_ne hsource]

/-- After the loop both the target and the other register have the source. -/
theorem loopEffect_writeBoth (hne : source ≠ target) (hsource : source ≠ aux)
    (htarget : target ≠ aux) (hword : IsWord (st source)) (q : Reg) :
    loopEffect source (fun s st => (st.write s target).write s aux) st q =
      if q = source then [] else if q ∈ [target, aux] then st q ++ st source else st q :=
  loopEffect_append [target, aux] (by simp [hne, hsource])
    (fun s st q => writeBoth_apply s st q htarget) hword q

theorem loopEffect_writeBoth_aux (hne : source ≠ target) (hsource : source ≠ aux)
    (htarget : target ≠ aux) (hword : IsWord (st source)) (haux : st aux = []) :
    loopEffect source (fun s st => (st.write s target).write s aux) st aux = st source := by
  rw [loopEffect_writeBoth hne hsource htarget hword, if_neg hsource.symm, if_pos (by simp), haux,
    List.nil_append]

theorem effect_move_writeBoth (hne : source ≠ target) (hsource : source ≠ aux)
    (htarget : target ≠ aux) (hword : IsWord (st source)) (haux : st aux = []) :
    (Call.move aux source).effect
        (loopEffect source (fun s st => (st.write s target).write s aux) st) =
      (Call.copy source target).effect st := by
  funext q
  simp only [Call.effect, Function.update_apply,
    loopEffect_writeBoth_aux hne hsource htarget hword haux,
    loopEffect_writeBoth hne hsource htarget hword]
  grind

end Copies

theorem finishesIn_copy (hne : source ≠ target) (hsource : source ≠ ⟨temp⟩)
    (htarget : target ≠ ⟨temp⟩) (hword : IsWord (st source)) (htemp : st ⟨temp⟩ = []) :
    (copy source target : Structured n).FinishesIn temp st ((Call.copy source target).time st)
      ((Call.copy source target).effect st) := by
  let body (s : Symbol) : Structured n := seq (write s target) (write s ⟨temp⟩)
  let mid := loopEffect source (fun s st => (st.write s target).write s ⟨temp⟩) st
  have hloop : (repeatOn source (body .one) (body .hash)).FinishesIn (temp + 1) st
      (5 * (st source).length + 3) mid := by
    refine finishesIn_repeatOn body (fun _ => True) (fun _ _ => 2)
      (fun st => 5 * (st source).length + 3)
      (fun s _ _ => (finishesIn_write s target).seq (finishesIn_write s ⟨temp⟩))
      (fun s st _ => writeBoth_source s st hne hsource) (fun _ _ _ => trivial)
      (fun _ _ => trivial) ?_ ?_ trivial
    · intro st h
      rw [h, List.length_nil]
    · intro st c cs h
      rw [writeBoth_source _ _ hne hsource, Store.drop_self, h, List.tail_cons, List.length_cons]
      omega
  have hkept : mid ⟨temp⟩ = st source := loopEffect_writeBoth_aux hne hsource htarget hword htemp
  have hback : (move ⟨temp⟩ source : Structured n).FinishesIn (temp + 1) mid _ _ :=
    finishesIn_move hsource.symm (hkept ▸ hword)
  refine ((finishesIn_operands _).seq (.withTemp (hloop.seq hback))).of_eq ?_
    (effect_move_writeBoth hne hsource htarget hword htemp)
  -- the move back finds as many symbols as the loop did
  rw [Call.time, hkept, Call.time]
  omega

theorem finishesIn_clear (r : Reg) (hword : IsWord (st r)) :
    (clear r : Structured n).FinishesIn temp st ((Call.clear r).time st)
      ((Call.clear r).effect st) := by
  have hloop : (whileNonempty r (operands []) : Structured n).FinishesIn temp st
      ((Call.clear r).time st) ((Call.clear r).effect st) := by
    induction hcontents : st r generalizing st with
    | nil =>
      refine (finishesIn_whileNonempty_of_eq_nil hcontents).of_eq ?_ ?_
      · rw [Call.time, hcontents, List.count_nil, List.count_nil]
      · rw [Call.effect, ← hcontents, Function.update_eq_self]
    | cons c cs ih =>
      rw [hcontents] at hword
      have hrest : st.drop r r = cs := by rw [Store.drop_self, hcontents, List.tail_cons]
      have hcs : IsWord cs := hword.tail
      refine (finishesIn_whileNonempty_of_eq_cons hcontents (finishesIn_operands [])
        (ih (hrest.symm ▸ hcs) hrest)).of_eq ?_ (Function.update_idem _ _ st)
      rw [Call.time, Call.time, hrest, hcontents]
      rcases hword c List.mem_cons_self with rfl | rfl
      · have hdrop : dropTime (.ofChar '1') = 3 := rfl
        rw [hdrop, List.count_cons_self, List.count_cons_of_ne (by decide)]
        omega
      · have hdrop : dropTime (.ofChar '#') = 2 := rfl
        rw [hdrop, List.count_cons_self, List.count_cons_of_ne (by decide)]
        omega
  exact ((finishesIn_operands _).seq hloop).of_eq (Nat.zero_add _) rfl

/-- Each of the three moves finds its target empty. -/
theorem effect_swap {left right aux : Reg} (hne : left ≠ right) (hleft : left ≠ aux)
    (hright : right ≠ aux) (haux : st aux = []) :
    (Call.move aux right).effect ((Call.move right left).effect ((Call.move left aux).effect st)) =
      (Call.swap left right).effect st := by
  funext q
  simp only [Call.effect, Function.update_apply]
  grind

theorem finishesIn_swap {left right : Reg} (hne : left ≠ right) (hleft : left ≠ ⟨temp⟩)
    (hright : right ≠ ⟨temp⟩) (hwords : st.Words) (htemp : st ⟨temp⟩ = []) :
    (swap left right : Structured n).FinishesIn temp st ((Call.swap left right).time st)
      ((Call.swap left right).effect st) := by
  let aside := (Call.move left ⟨temp⟩).effect st
  let across := (Call.move right left).effect aside
  have haside : aside.Words := Call.words_effect hwords _
  have hacross : across.Words := Call.words_effect haside _
  have hfirst : (move left ⟨temp⟩ : Structured n).FinishesIn (temp + 1) st _ aside :=
    finishesIn_move hleft (hwords left)
  have hsecond : (move right left : Structured n).FinishesIn (temp + 1) aside _ across :=
    finishesIn_move hne.symm (haside right)
  have hthird : (move ⟨temp⟩ right : Structured n).FinishesIn (temp + 1) across _ _ :=
    finishesIn_move hright.symm (hacross ⟨temp⟩)
  refine ((finishesIn_operands _).seq (.withTemp (hfirst.seq (hsecond.seq hthird)))).of_eq ?_
    (effect_swap hne hleft hright htemp)
  have hmoved : aside right = st right := by
    simp [aside, Call.effect, Function.update_of_ne, hne.symm, hright]
  have hkept : across ⟨temp⟩ = st left := by
    simp [across, aside, Call.effect, Function.update_of_ne, hleft.symm, hright.symm, htemp]
  simp only [Call.time, hmoved, hkept]
  omega

/-- The symbol goes to the empty register, the target after it, and all of it back. -/
theorem effect_prepend {aux : Reg} (s : Symbol) (htarget : target ≠ aux) (haux : st aux = []) :
    (Call.move aux target).effect ((Call.move target aux).effect (st.write s aux)) =
      Function.update st target (s.toChar :: st target) := by
  funext q
  simp only [Call.effect, Store.write, Function.update_apply]
  grind

/-- To put a symbol in front of a register takes moving it twice, the second time with the symbol.
-/
theorem finishesIn_prepend (s : Symbol) (htarget : target ≠ ⟨temp⟩) (hwords : st.Words)
    (htemp : st ⟨temp⟩ = []) :
    (prepend s target : Structured n).FinishesIn temp st (8 * (st target).length + 11)
      (Function.update st target (s.toChar :: st target)) := by
  let begun := st.write s ⟨temp⟩
  let aside := (Call.move target ⟨temp⟩).effect begun
  have hbegun : begun.Words := hwords.write s _
  have haside : aside.Words := Call.words_effect hbegun _
  have hfirst : (move target ⟨temp⟩ : Structured n).FinishesIn (temp + 1) begun _ aside :=
    finishesIn_move htarget (hbegun target)
  have hsecond : (move ⟨temp⟩ target : Structured n).FinishesIn (temp + 1) aside _ _ :=
    finishesIn_move htarget.symm (haside ⟨temp⟩)
  refine (FinishesIn.withTemp ((finishesIn_write s ⟨temp⟩).seq (hfirst.seq hsecond))).of_eq ?_
    (effect_prepend s htarget htemp)
  have hbegunTarget : begun target = st target := Function.update_of_ne htarget _ st
  have hkept : aside ⟨temp⟩ = s.toChar :: st target := by
    simp [aside, begun, Call.effect, Store.write, Function.update_of_ne, htarget, htarget.symm,
      htemp]
  simp only [Call.time, hbegunTarget, hkept, List.length_cons]
  omega

/-- Passes that put the symbol in front of the target put the reverse of the source there. -/
theorem loopEffect_reverse (hne : source ≠ target) (hword : IsWord (st source)) :
    loopEffect source (fun s st => Function.update st target (s.toChar :: st target)) st =
      (Call.reverse source target).effect st := by
  induction hcontents : st source generalizing st with
  | nil =>
    rw [loopEffect_of_eq_nil hcontents, Call.effect, hcontents, List.reverse_nil, List.nil_append,
      Function.update_eq_self, ← hcontents, Function.update_eq_self]
  | cons c cs ih =>
    rw [hcontents] at hword
    have hrest : Function.update (st.drop source) target
        ((Symbol.ofChar c).toChar :: st.drop source target) source = cs := by
      rw [Function.update_of_ne hne, Store.drop_self, hcontents, List.tail_cons]
    have hcs : IsWord cs := hword.tail
    -- the first symbol is put in front first, and ends up behind all the others
    rw [loopEffect_of_eq_cons hcontents hrest, ih (hrest.symm ▸ hcs) hrest,
      IsWord.toChar_ofChar (hword c List.mem_cons_self)]
    funext q
    simp only [Call.effect, Store.drop, Function.update_apply, hcontents, List.reverse_cons]
    grind

theorem finishesIn_reverse (hne : source ≠ target) (hsource : source ≠ ⟨temp⟩)
    (htarget : target ≠ ⟨temp⟩) (hwords : st.Words) (htemp : st ⟨temp⟩ = []) :
    (reverse source target : Structured n).FinishesIn temp st
      ((Call.reverse source target).time st) ((Call.reverse source target).effect st) := by
  have hloop : (repeatOn source (prepend .one target) (prepend .hash target) :
      Structured n).FinishesIn temp st ((Call.reverse source target).time st)
      (loopEffect source (fun s st => Function.update st target (s.toChar :: st target)) st) := by
    refine finishesIn_repeatOn (fun s => prepend s target)
      (fun st => st.Words ∧ st ⟨temp⟩ = []) (fun _ st => 8 * (st target).length + 11)
      (Call.reverse source target).time
      ?_ ?_ ?_ ?_ ?_ ?_ ⟨hwords, htemp⟩
    · rintro s st ⟨hwords, htemp⟩
      exact finishesIn_prepend s htarget hwords htemp
    · intro s st _
      exact Function.update_of_ne hne _ st
    · rintro s st ⟨hwords, htemp⟩
      refine ⟨hwords.update target ((hwords target).cons s), ?_⟩
      rw [Function.update_of_ne htarget.symm, htemp]
    · rintro st ⟨hwords, htemp⟩
      refine ⟨hwords.drop source, ?_⟩
      rw [Store.drop_of_ne st hsource.symm, htemp]
    · intro st h
      simp only [Call.time, h, List.length_nil]
      omega
    · -- a pass makes the source shorter by a symbol, and the target longer
      intro st c cs h
      simp only [Call.time, Function.update_of_ne hne, Function.update_self, Store.drop_self,
        Store.drop_of_ne st hne.symm, h, List.tail_cons, List.length_cons]
      ring
  exact ((finishesIn_operands _).seq hloop).of_eq (Nat.zero_add _)
    (loopEffect_reverse hne (hwords source))

/-- Every routine takes its time, if its operands differ and the temporary is empty. -/
theorem finishesIn_call {c : Call Reg} (hnodup : c.operands.Nodup)
    (hbelow : ∀ r ∈ c.operands, r ≠ ⟨temp⟩) (hwords : st.Words) (htemp : st ⟨temp⟩ = []) :
    (call c : Structured n).FinishesIn temp st (c.time st) (c.effect st) := by
  cases c with
  | move source target =>
    have hne : source ≠ target := by simpa [Call.operands] using hnodup
    exact finishesIn_move hne (hwords source)
  | copy source target =>
    have hne : source ≠ target := by simpa [Call.operands] using hnodup
    exact finishesIn_copy hne (hbelow source (by simp [Call.operands]))
      (hbelow target (by simp [Call.operands])) (hwords source) htemp
  | clear r => exact finishesIn_clear r (hwords r)
  | swap left right =>
    have hne : left ≠ right := by simpa [Call.operands] using hnodup
    exact finishesIn_swap hne (hbelow left (by simp [Call.operands]))
      (hbelow right (by simp [Call.operands])) hwords htemp
  | reverse source target =>
    have hne : source ≠ target := by simpa [Call.operands] using hnodup
    exact finishesIn_reverse hne (hbelow source (by simp [Call.operands]))
      (hbelow target (by simp [Call.operands])) hwords htemp

/-! ## The code of the routines -/

theorem allowed_move {source target : Reg} (hne : source ≠ target)
    (hsource : source.UsableBelow temp) (htarget : target.UsableBelow temp) :
    (move source target : Structured n).Allowed temp := by
  refine ⟨⟨by simpa using hne, ?_⟩, hsource, htarget, htarget⟩
  simpa using ⟨hsource, htarget⟩

/-- The operands are usable, and so is the temporary while it is in use. -/
theorem allowed_call {c : Call Reg} (htemp : temp ≠ 0) (hnodup : c.operands.Nodup)
    (husable : ∀ r ∈ c.operands, r.UsableBelow temp) : (call c : Structured n).Allowed temp := by
  -- where the temporary is in use, the operands are still usable and differ from it
  have hlater : ∀ r ∈ c.operands, r.UsableBelow (temp + 1) ∧ r ≠ ⟨temp⟩ := by
    intro r hr
    obtain ⟨hzero, hlt⟩ := husable r hr
    refine ⟨⟨hzero, Nat.lt_succ_of_lt hlt⟩, ?_⟩
    rintro rfl
    exact Nat.lt_irrefl temp hlt
  have hown : (⟨temp⟩ : Reg).UsableBelow (temp + 1) := ⟨htemp, Nat.lt_succ_self temp⟩
  cases c with
  | move source target =>
    have hne : source ≠ target := by simpa [Call.operands] using hnodup
    exact allowed_move hne (husable source (by simp [Call.operands]))
      (husable target (by simp [Call.operands]))
  | copy source target =>
    obtain ⟨hsource, hsourceTemp⟩ := hlater source (by simp [Call.operands])
    obtain ⟨htarget, -⟩ := hlater target (by simp [Call.operands])
    exact ⟨⟨hnodup, husable⟩, ⟨hsource, ⟨htarget, hown⟩, htarget, hown⟩,
      allowed_move hsourceTemp.symm hown hsource⟩
  | clear r =>
    exact ⟨⟨hnodup, husable⟩, husable r (by simp [Call.operands]), List.nodup_nil, nofun⟩
  | swap left right =>
    have hne : left ≠ right := by simpa [Call.operands] using hnodup
    obtain ⟨hleft, hleftTemp⟩ := hlater left (by simp [Call.operands])
    obtain ⟨hright, hrightTemp⟩ := hlater right (by simp [Call.operands])
    exact ⟨⟨hnodup, husable⟩, allowed_move hleftTemp hleft hown,
      allowed_move hne.symm hright hleft, allowed_move hrightTemp.symm hown hright⟩
  | reverse source target =>
    obtain ⟨htarget, htargetTemp⟩ := hlater target (by simp [Call.operands])
    have hprepend : ∀ s, (prepend s target : Structured n).Allowed temp := fun s =>
      ⟨hown, allowed_move htargetTemp htarget hown, allowed_move htargetTemp.symm hown htarget⟩
    exact ⟨⟨hnodup, husable⟩, husable source (by simp [Call.operands]), hprepend .one,
      hprepend .hash⟩

theorem noSelfJump_call (c : Call Reg) (untouched : Fin n → Prop) :
    (call c : Structured n).NoSelfJump temp untouched := by
  cases c <;> simp [call, move, copy, clear, swap, prepend, reverse, NoSelfJump]

end Structured

/-! ## Lists of routines -/

/-- A routine in a build, by itself or under a comment that names the call. -/
inductive Invocation where
  | direct (call : Call Reg)
  | annotated (call : Call Reg)

namespace Invocation

/-- The call of an invocation. -/
def call : Invocation → Call Reg
  | direct c => c
  | annotated c => c

/-- Perform an invocation on a builder. -/
def build {σ : Type} : Invocation → Build σ Unit
  | direct c => Build.call c
  | annotated c => Build.routine c.routine c.operands

/-- The operands differ and are registers below the temporaries. -/
def Valid (base : Nat) (i : Invocation) : Prop :=
  i.call.operands.Nodup ∧ ∀ r ∈ i.call.operands, 1 ≤ r.index ∧ r.index < base

/-- An invocation as a structured program. -/
def structured {n : Nat} : Invocation → Structured n
  | direct c => .call c
  | annotated c => .annotated c

/-- Invocations one after another. -/
def script : List Invocation → Structured 0
  | [] => .operands []
  | i :: rest => .seq i.structured (script rest)

theorem build_structured {n : Nat} {σ : Type} (i : Invocation) (scopes : Fin n → Scope) :
    i.structured.build scopes = (i.build : Build σ Unit) := by
  cases i with
  | direct c => exact Structured.build_call c scopes
  | annotated c => exact Structured.build_annotated c scopes

theorem build_script {σ : Type} (invocations : List Invocation) :
    (script invocations).build Fin.elim0 = (invocations.forM build : Build σ Unit) := by
  induction invocations with
  | nil => rfl
  | cons i rest ih =>
    show (do i.structured.build Fin.elim0; (script rest).build Fin.elim0) = _
    rw [build_structured, ih]
    rfl

section Valid

variable {base : Nat} {i : Invocation} {st : Store}

theorem Valid.allowed {n : Nat} (h : i.Valid base) (hbase : 1 ≤ base) :
    (i.structured : Structured n).Allowed base := by
  have hcall : (Structured.call i.call : Structured n).Allowed base := by
    apply Structured.allowed_call (by omega) h.1
    intro r hr
    obtain ⟨hzero, hlt⟩ := h.2 r hr
    exact ⟨by omega, hlt⟩
  cases i with
  | direct c => exact hcall
  | annotated c => exact ⟨trivial, hcall⟩

theorem noSelfJump_structured {n : Nat} (i : Invocation) (untouched : Fin n → Prop) :
    (i.structured : Structured n).NoSelfJump base untouched := by
  cases i with
  | direct c => exact Structured.noSelfJump_call c untouched
  | annotated c => exact ⟨trivial, Structured.noSelfJump_call c _⟩

theorem Valid.ne_temporary (h : i.Valid base) : ∀ r ∈ i.call.operands, r ≠ ⟨base⟩ := by
  rintro _ hr rfl
  exact Nat.lt_irrefl base (h.2 _ hr).2

theorem Valid.finishesIn {n : Nat} (h : i.Valid base) (hwords : st.Words)
    (htemp : st ⟨base⟩ = []) :
    (i.structured : Structured n).FinishesIn base st (i.call.time st) (i.call.effect st) := by
  have hcall : (Structured.call i.call : Structured n).FinishesIn base st _ _ :=
    Structured.finishesIn_call h.1 h.ne_temporary hwords htemp
  cases i with
  | direct c => exact hcall
  | annotated c => exact ((Structured.finishesIn_comment _).seq hcall).of_eq (Nat.zero_add _) rfl

theorem Valid.runs {n : Nat} (h : i.Valid base) (hwords : st.Words) (htemp : st ⟨base⟩ = []) :
    (i.structured : Structured n).Runs base st .finish (i.call.effect st) :=
  (h.finishesIn hwords htemp).runs

end Valid

section Scripts

variable {base : Nat} {invocations : List Invocation} {st : Store}

/-- The effect of invocations one after another. -/
def effects (invocations : List Invocation) (st : Store) : Store :=
  invocations.foldl (fun st i => i.call.effect st) st

theorem allowed_script (h : ∀ i ∈ invocations, i.Valid base) (hbase : 1 ≤ base) :
    (script invocations).Allowed base := by
  induction invocations with
  | nil => exact ⟨List.nodup_nil, nofun⟩
  | cons i rest ih =>
    exact ⟨(h i List.mem_cons_self).allowed hbase,
      ih fun j hj => h j (List.mem_cons_of_mem i hj)⟩

theorem noSelfJump_script (invocations : List Invocation) (untouched : Fin 0 → Prop) :
    (script invocations).NoSelfJump base untouched := by
  induction invocations generalizing untouched with
  | nil => trivial
  | cons i rest ih => exact ⟨i.noSelfJump_structured untouched, ih _⟩

/-- Each routine leaves the temporary empty for the next one. -/
theorem runs_script (h : ∀ i ∈ invocations, i.Valid base) (hwords : st.Words)
    (htemp : st ⟨base⟩ = []) :
    (script invocations).Runs base st .finish (effects invocations st) := by
  induction invocations generalizing st with
  | nil => exact ⟨rfl, rfl⟩
  | cons i rest ih =>
    have hi := h i List.mem_cons_self
    have htemp' : i.call.effect st ⟨base⟩ = [] := by
      rw [Call.effect_of_not_mem (fun hmem => hi.ne_temporary _ hmem rfl), htemp]
    exact Structured.runs_seq (hi.runs hwords htemp)
      (ih (fun j hj => h j (List.mem_cons_of_mem i hj)) (Call.words_effect hwords i.call) htemp')

theorem effects_of_not_mem {r : Reg} (h : ∀ i ∈ invocations, r ∉ i.call.operands) :
    effects invocations st r = st r := by
  induction invocations generalizing st with
  | nil => rfl
  | cons i rest ih =>
    show effects rest (i.call.effect st) r = st r
    rw [ih fun j hj => h j (List.mem_cons_of_mem i hj),
      Call.effect_of_not_mem (h i List.mem_cons_self)]

end Scripts

end Invocation

open Invocation in
/-- **The routines do what they are for, in any sequence.** Every call succeeds, the code resolves,
and on words the program halts properly with the effects of the calls one after another, as long as
the temporary is empty. It is left empty, and registers that are no operands are left alone. -/
theorem library_effects {base : Nat} (hbase : 1 ≤ base) {invocations : List Invocation}
    (hvalid : ∀ i ∈ invocations, i.Valid base) :
    ∃ b loaded,
      (invocations.forM build : Build Unit Unit).perform (.startingAt base) () = (.ok (), b, ()) ∧
        resolve b.code.toList = .ok loaded ∧
          ∀ rs : Registers, Store.Words rs.contents → rs.contents ⟨base⟩ = [] →
            HaltsProperly loaded.ops rs (effects invocations rs.contents) ∧
              effects invocations rs.contents ⟨base⟩ = [] ∧
                ∀ r, (∀ i ∈ invocations, r ∉ i.call.operands) →
                  effects invocations rs.contents r = rs.contents r := by
  have hmax : max base 1 = base := Nat.max_eq_left hbase
  -- all calls together are one structured program, and what it does is known
  obtain ⟨finished, loaded, hcompile, hresolve⟩ :=
    Structured.exists_compile_resolve (script invocations) base
      (by rw [hmax]; exact allowed_script hvalid hbase)
      (by rw [hmax]; exact noSelfJump_script invocations _)
  obtain ⟨b, hperform, rfl⟩ := Structured.perform_of_compile hcompile
  rw [build_script] at hperform
  refine ⟨b, loaded, hperform, hresolve, ?_⟩
  intro rs hwords htemp
  refine ⟨?_, ?_, fun r hr => effects_of_not_mem hr⟩
  · have hruns : (script invocations).Terminates base rs.contents
        (effects invocations rs.contents) := by
      rw [Structured.Terminates, hmax]
      exact runs_script hvalid hwords htemp
    obtain ⟨m, -, hreach⟩ :=
      (Structured.implements_terminates hcompile hresolve).reaches (e := ()) hruns
    exact haltsProperly_iff.2 ⟨m, hreach⟩
  · rw [effects_of_not_mem, htemp]
    intro i hi hmem
    exact (hvalid i hi).ne_temporary _ hmem rfl

/-- Reverse one register into another and exchange that with a third. -/
def reverseThenSwap : List Invocation :=
  [.direct (.reverse ⟨1⟩ ⟨2⟩), .annotated (.swap ⟨2⟩ ⟨3⟩)]

open Invocation in
theorem library_effects_reverseThenSwap : ∃ b loaded,
    (reverseThenSwap.forM build : Build Unit Unit).perform (.startingAt 4) () = (.ok (), b, ()) ∧
      resolve b.code.toList = .ok loaded ∧
        ∃ final, HaltsProperly loaded.ops (.ofList [(⟨1⟩, ['1', '#', '#'])]) final ∧
          final ⟨1⟩ = [] ∧ final ⟨2⟩ = [] ∧ final ⟨3⟩ = ['#', '#', '1'] := by
  have hvalid : ∀ i ∈ reverseThenSwap, i.Valid 4 := by
    simp [reverseThenSwap, Valid, call, Call.operands]
  have hcontents : ∀ r, (Registers.ofList [(⟨1⟩, ['1', '#', '#'])]).contents r =
      if r = ⟨1⟩ then ['1', '#', '#'] else [] := by
    intro r
    show (({} : Registers).set ⟨1⟩ (.ofList ['1', '#', '#'])).contents r = _
    rw [Registers.contents_set, Queue.toList_ofList, Registers.contents, Registers.queue_empty,
      Queue.toList_empty]
  obtain ⟨b, loaded, hperform, hresolve, hrun⟩ := library_effects (by decide) hvalid
  refine ⟨b, loaded, hperform, hresolve, _, (hrun _ ?_ ?_).1, ?_, ?_, ?_⟩
  · intro r
    rw [hcontents]
    split
    · exact ((IsWord.nil.cons .hash).cons .hash).cons .one
    · exact .nil
  · rw [hcontents, if_neg (by decide)]
  · simp [effects, reverseThenSwap, call, Call.effect, hcontents]
  · simp [effects, reverseThenSwap, call, Call.effect, hcontents]
  · simp [effects, reverseThenSwap, call, Call.effect, hcontents]

end TextMachine
