/-
The normal spelling of a text that is in its normal spelling.

Spelling a text in the normal way need not be the end of it: turning a comparison round can leave
another one that is the wrong way round, as `==>` becomes `=>=`, which would become `>==`. But
that takes three marks of comparisons, and a formula has one comparison, so two marks at most.
The respellings neither add nor remove marks (`marks_normalChars`), and where there are at most
two of them nothing is left to respell (`settled_normalChars`). So the text of a formula stays as
it is, and no other text becomes one (`Reading.text_eq_again_iff`).
-/
import HalfPlane.Form.Canonical
import HalfPlane.Proofs.Formula.Signs

namespace HalfPlane.Formula
open Text

/-! ## Marks of comparisons -/

def isMark (c : Char) : Bool := c = '=' || c = '>' || c = '<'

/-- How many marks of comparisons a text has. -/
def marks (cs : List Char) : Nat := cs.countP isMark

theorem unmarked {cs : List Char} (h : marks cs = 0) : ∀ c ∈ cs, isMark c = false := by
  intro c hc
  have none := List.countP_eq_zero.1 h c hc
  simpa using none

/-- A comparison that is not the wrong way round. -/
def Unturned (c d : Char) : Prop := ¬ (c = '=' ∧ (d = '>' ∨ d = '<'))

/-! ## What a replacement does -/

theorem replaceChar_singleton (old new : Char) (cs : List Char) :
    replaceChar old [new] cs = cs.map fun c => if c = old then new else c := by
  induction cs with
  | nil => rfl
  | cons c cs ih =>
    rw [replaceChar] at ih ⊢
    rw [List.flatMap_cons, ih, List.map_cons]
    split <;> rfl

theorem mem_of_mem_replaceChar {old : Char} {new cs : List Char} {c : Char}
    (h : c ∈ replaceChar old new cs) : c ∈ new ∨ c ∈ cs ∧ c ≠ old := by
  obtain ⟨d, hd, hc⟩ := List.mem_flatMap.1 h
  split at hc
  · exact .inl hc
  · next other =>
    obtain rfl := List.mem_singleton.1 hc
    exact .inr ⟨hd, other⟩

theorem mem_of_mem_replacePair {p q : Char} {new cs : List Char} {c : Char}
    (h : c ∈ replacePair p q new cs) : c ∈ new ∨ c ∈ cs := by
  fun_induction replacePair p q new cs with
  | case1 d e rest found ih =>
    rcases List.mem_append.1 h with h | h
    · exact .inl h
    · rcases ih h with h | h
      · exact .inl h
      · exact .inr (by simp [h])
  | case2 d e rest other ih =>
    rcases List.mem_cons.1 h with rfl | h
    · exact .inr (by simp)
    · rcases ih h with h | h
      · exact .inl h
      · exact .inr (by simp [h])
  | case3 cs short => exact .inr h

theorem marks_replaceChar {old new : Char} (same : isMark new = isMark old) (cs : List Char) :
    marks (replaceChar old [new] cs) = marks cs := by
  rw [replaceChar_singleton, marks, List.countP_map]
  refine List.countP_congr fun c _ => ?_
  simp only [Function.comp_apply]
  split
  · next found => rw [same, found]
  · rfl

theorem marks_replacePair {p q : Char} {new : List Char} (same : marks new = marks [p, q])
    (cs : List Char) : marks (replacePair p q new cs) = marks cs := by
  fun_induction replacePair p q new cs with
  | case1 c d rest found ih =>
    obtain ⟨rfl, rfl⟩ := found
    unfold marks at same ih ⊢
    rw [List.countP_append, same, ih, ← List.countP_append]
    rfl
  | case2 c d rest other ih =>
    unfold marks at ih ⊢
    rw [List.countP_cons, ih, ← List.countP_cons]
  | case3 cs short => rfl

/-- A text starts as it did, unless the first two characters were the pair. -/
theorem head?_replacePair (p q s : Char) (new cs : List Char) :
    (replacePair p q (s :: new) cs).head? = cs.head? ∨
      (replacePair p q (s :: new) cs).head? = some s ∧ ∃ rest, cs = p :: q :: rest := by
  unfold replacePair
  split
  · next c d rest =>
    split
    · next found => exact .inr ⟨rfl, rest, by rw [found.1, found.2]⟩
    · exact .inl rfl
  · exact .inl rfl

/-- What holds between any character and `s`, on either side, holds throughout a text when `s`
takes the place of pairs. -/
theorem isChain_replacePair {R : Char → Char → Prop} {p q s : Char} (before : ∀ c, R c s)
    (behind : ∀ d, R s d) {cs : List Char} (h : cs.IsChain R) :
    (replacePair p q [s] cs).IsChain R := by
  fun_induction replacePair p q [s] cs with
  | case1 c d rest found ih => exact List.isChain_cons.2 ⟨fun d _ => behind d, ih h.tail.tail⟩
  | case2 c d rest other ih =>
    refine List.isChain_cons.2 ⟨fun e he => ?_, ih h.tail⟩
    rcases head?_replacePair p q s [] (d :: rest) with first | ⟨first, -⟩
    · rw [first] at he
      cases he
      exact (List.isChain_cons_cons.1 h).1
    · rw [first] at he
      cases he
      exact before c
  | case3 cs short => exact h

/-! ## Signs -/

section Signs
variable {cs : List Char}

theorem marks_collapseSigns (cs : List Char) : marks (collapseSigns cs) = marks cs := by
  have round (cs : List Char) : marks (signRound cs) = marks cs := by
    unfold signRound
    dsimp only
    rw [marks_replacePair (by rfl), marks_replacePair (by rfl), marks_replacePair (by rfl),
      marks_replacePair (by rfl)]
  fun_induction collapseSigns cs with
  | case1 cs shorter ih => rw [ih, round]
  | case2 cs longer => rfl

theorem unturned_collapseSigns (h : cs.IsChain Unturned) : (collapseSigns cs).IsChain Unturned := by
  have round {cs : List Char} (h : cs.IsChain Unturned) : (signRound cs).IsChain Unturned := by
    have plus {p q : Char} {cs : List Char} (h : cs.IsChain Unturned) :
        (replacePair p q ['+'] cs).IsChain Unturned :=
      isChain_replacePair (by simp [Unturned]) (by simp [Unturned]) h
    have minus {p q : Char} {cs : List Char} (h : cs.IsChain Unturned) :
        (replacePair p q ['-'] cs).IsChain Unturned :=
      isChain_replacePair (by simp [Unturned]) (by simp [Unturned]) h
    exact plus (minus (minus (plus h)))
  fun_induction collapseSigns cs with
  | case1 cs shorter ih => exact ih (round h)
  | case2 cs longer => exact h

theorem clean_collapseSigns (h : ∀ c ∈ cs, Clean c) : ∀ c ∈ collapseSigns cs, Clean c := by
  have pair {p q s : Char} (hs : Clean s) {cs : List Char} (h : ∀ c ∈ cs, Clean c) :
      ∀ c ∈ replacePair p q [s] cs, Clean c := by
    intro c hc
    rcases mem_of_mem_replacePair hc with hc | hc
    · rwa [List.mem_singleton.1 hc]
    · exact h c hc
  have round {cs : List Char} (h : ∀ c ∈ cs, Clean c) : ∀ c ∈ signRound cs, Clean c :=
    pair (by decide) (pair (by decide) (pair (by decide) (pair (by decide) h)))
  fun_induction collapseSigns cs with
  | case1 cs shorter ih => exact ih (round h)
  | case2 cs longer => exact h

end Signs

/-! ## The other respellings -/

/-- Plain signs for look-alike ones. -/
def unlike (cs : List Char) : List Char :=
  replaceChar '≠' ['!', '='] (replaceChar '≥' ['>', '='] (replaceChar '≤' ['<', '=']
    (replaceChar '−' ['-'] cs)))

/-- The usual order inside a comparison. -/
def turned (cs : List Char) : List Char :=
  replacePair '=' '<' ['<', '='] (replacePair '=' '>' ['>', '='] cs)

/-- Lower case for the unknowns. -/
def lowered (cs : List Char) : List Char := replaceChar 'Y' ['y'] (replaceChar 'X' ['x'] cs)

theorem respelled_eq (cs : List Char) : respelled cs = lowered (turned (unlike cs)) := rfl

theorem marks_turned (cs : List Char) : marks (turned cs) = marks cs := by
  rw [turned, marks_replacePair (by rfl), marks_replacePair (by rfl)]

theorem marks_lowered (cs : List Char) : marks (lowered cs) = marks cs := by
  rw [lowered, marks_replaceChar (by rfl), marks_replaceChar (by rfl)]

theorem marks_normalChars (cs : List Char) :
    marks (normalChars cs) = marks (unlike (cs.filter fun c => !isBlank c)) := by
  rw [normalChars, marks_collapseSigns, respelled_eq, marks_lowered, marks_turned]

/-- Nothing is left to respell of the characters. -/
theorem clean_respelled {cs : List Char} (h : ∀ c ∈ cs, isBlank c = false) :
    ∀ c ∈ respelled cs, Clean c := by
  intro c hc
  by_contra other
  -- Whatever is put in is clean, so the character was there all along and was never replaced.
  have char {old : Char} {new cs : List Char} (clean : (new.all fun d => decide (Clean d)) = true)
      (hc : c ∈ replaceChar old new cs) : c ∈ cs ∧ c ≠ old := by
    rcases mem_of_mem_replaceChar hc with hc | hc
    · exact absurd (of_decide_eq_true (List.all_eq_true.1 clean c hc)) other
    · exact hc
  have pair {p q : Char} {new cs : List Char} (clean : (new.all fun d => decide (Clean d)) = true)
      (hc : c ∈ replacePair p q new cs) : c ∈ cs := by
    rcases mem_of_mem_replacePair hc with hc | hc
    · exact absurd (of_decide_eq_true (List.all_eq_true.1 clean c hc)) other
    · exact hc
  obtain ⟨hc, notY⟩ := char (by decide) hc
  obtain ⟨hc, notX⟩ := char (by decide) hc
  obtain ⟨hc, notUnequal⟩ := char (by decide) (pair (by decide) (pair (by decide) hc))
  obtain ⟨hc, notAtLeast⟩ := char (by decide) hc
  obtain ⟨hc, notAtMost⟩ := char (by decide) hc
  obtain ⟨hc, notMinus⟩ := char (by decide) hc
  exact other ⟨h c hc, by simp [*]⟩

theorem clean_normalChars (cs : List Char) : ∀ c ∈ normalChars cs, Clean c :=
  clean_collapseSigns (clean_respelled fun c hc => by simpa using (List.mem_filter.1 hc).2)

/-- Turning one kind of comparison round leaves none of its kind, if there are at most two marks,
and none of a kind that was not there. -/
theorem isChain_turn {q : Char} {others : List Char} (mark : isMark q = true) (ne : q ≠ '=')
    (kinds : ∀ d ∈ others, isMark d = true) {cs : List Char} (few : marks cs ≤ 2)
    (h : cs.IsChain fun c d => ¬ (c = '=' ∧ d ∈ others)) :
    (replacePair '=' q [q, '='] cs).IsChain fun c d => ¬ (c = '=' ∧ d ∈ q :: others) := by
  have kind : ∀ d ∈ q :: others, isMark d = true := List.forall_mem_cons.2 ⟨mark, kinds⟩
  have equals : isMark '=' = true := rfl
  fun_induction replacePair '=' q [q, '='] cs with
  | case1 c d rest found ih =>
    -- These are the two marks, so behind them is none.
    obtain ⟨rfl, rfl⟩ := found
    have swapped : marks [d, '='] = marks ['=', d] := (List.Perm.swap _ _ _).countP_eq isMark
    have none : marks rest = 0 := by
      simp only [marks, List.countP_cons, mark, equals, if_true] at few ⊢
      omega
    have further := unmarked ((marks_replacePair swapped rest).trans none)
    have quiet : (replacePair '=' d [d, '='] rest).IsChain
        fun c e => ¬ (c = '=' ∧ e ∈ d :: others) := by
      refine List.isChain_iff_getElem.2 fun i hi both => ?_
      have mark := further _ (List.getElem_mem (by omega : i < _))
      rw [both.1, equals] at mark
      cases mark
    refine List.isChain_cons_cons.2 ⟨fun both => ne both.1, List.isChain_cons.2 ⟨?_, quiet⟩⟩
    intro e he both
    have mark := kind e both.2
    rw [further e (List.mem_of_mem_head? he)] at mark
    cases mark
  | case2 c d rest other ih =>
    have fewer : marks (d :: rest) ≤ 2 := by
      have := List.countP_cons (p := isMark) (a := c) (l := d :: rest)
      simp only [marks] at few ⊢
      omega
    refine List.isChain_cons.2 ⟨fun e he both => ?_, ih fewer h.tail⟩
    obtain ⟨rfl, kindE⟩ := both
    rcases head?_replacePair '=' q q ['='] (d :: rest) with first | ⟨-, tail, same⟩
    · rw [first] at he
      cases he
      rcases List.mem_cons.1 kindE with rfl | earlier
      · exact other ⟨rfl, rfl⟩
      · exact (List.isChain_cons_cons.1 h).1 ⟨rfl, earlier⟩
    · rw [same] at few
      simp only [marks, List.countP_cons, mark, equals, if_true] at few
      omega
  | case3 cs short => exact isChain_of_short short

theorem unturned_turned {cs : List Char} (few : marks cs ≤ 2) : (turned cs).IsChain Unturned := by
  have start : cs.IsChain fun c d => ¬ (c = '=' ∧ d ∈ ([] : List Char)) :=
    List.isChain_iff_getElem.2 fun i hi both => List.not_mem_nil both.2
  have first := isChain_turn (q := '>') (by decide) (by decide) (by simp) few start
  have fewer : marks (replacePair '=' '>' ['>', '='] cs) ≤ 2 := by
    rwa [marks_replacePair (by rfl)]
  have second := isChain_turn (q := '<') (by decide) (by decide) (by simp; rfl) fewer first
  refine second.imp fun c d apart both => apart ⟨both.1, ?_⟩
  rcases both.2 with rfl | rfl <;> simp

theorem unturned_lowered {cs : List Char} (h : cs.IsChain Unturned) :
    (lowered cs).IsChain Unturned := by
  have char {old new : Char} (other : new ∉ ['=', '>', '<'] ∧ old ∉ ['=', '>', '<'])
      {cs : List Char} (h : cs.IsChain Unturned) : (replaceChar old [new] cs).IsChain Unturned := by
    rw [replaceChar_singleton, List.isChain_map]
    have kept {c e : Char} (he : e ∈ ['=', '>', '<']) (h : (if c = old then new else c) = e) :
        c = e := by
      split at h
      · rw [← h] at he
        exact absurd he other.1
      · exact h
    refine h.imp fun c d apart both => apart ⟨kept (by simp) both.1, ?_⟩
    rcases both.2 with greater | less
    · exact .inl (kept (by simp) greater)
    · exact .inr (kept (by simp) less)
  exact char (by decide) (char (by decide) h)

/-- With at most two marks of comparisons a normal spelling has nothing left to respell. -/
theorem settled_normalChars {cs : List Char} (few : marks (normalChars cs) ≤ 2) :
    Settled (normalChars cs) where
  clean := clean_normalChars cs
  apart := by
    rw [marks_normalChars] at few
    have unturned : (normalChars cs).IsChain Unturned :=
      unturned_collapseSigns (unturned_lowered (unturned_turned few))
    have lone : Lone (normalChars cs) := lone_collapseSigns _
    exact List.isChain_iff_getElem.2 fun i hi =>
      ⟨List.isChain_iff_getElem.1 lone i hi, List.isChain_iff_getElem.1 unturned i hi⟩

theorem filter_of_clean {cs : List Char} (h : ∀ c ∈ cs, Clean c) :
    cs.filter (fun c => !isBlank c) = cs :=
  List.filter_eq_self.2 fun c hc => by simp [(h c hc).1]

theorem unlike_of_clean {cs : List Char} (h : ∀ c ∈ cs, Clean c) : unlike cs = cs := by
  have char {old : Char} (new : List Char) (among : old ∈ ['−', '≤', '≥', '≠', 'X', 'Y']) :
      replaceChar old new cs = cs := by
    refine replaceChar_eq fun c hc same => (h c hc).2 ?_
    rwa [same]
  simp [unlike, char]

theorem toList_normalize (text : String) : (normalize text).toList = normalChars text.toList :=
  String.toList_ofList

theorem normalChars_again {cs : List Char} (few : marks (normalChars cs) ≤ 2) :
    normalChars (normalChars cs) = normalChars cs :=
  (settled_normalChars few).normalChars_eq (filter_of_clean (clean_normalChars cs))

/-- Spelling a text once more neither adds marks nor removes any. -/
theorem marks_again (cs : List Char) :
    marks (normalChars (normalChars cs)) = marks (normalChars cs) := by
  have clean := clean_normalChars cs
  rw [marks_normalChars (normalChars cs), filter_of_clean clean, unlike_of_clean clean]

/-! ## Texts of formulas -/

theorem Atom.uncompared (a : Atom) : ∀ t ∈ a.words, t.isComparison = false := by
  rcases a with ⟨l, _⟩ | ⟨l, _, _ | _, u⟩ | u <;> simp [words, Token.isComparison]

theorem Sign.uncompared (s : Sign) : s.word.isComparison = false := by
  cases s <;> rfl

theorem Summands.uncompared (s : Summands) : ∀ t ∈ s.words, t.isComparison = false := by
  intro t ht
  simp only [words, otherWords, List.mem_append, Option.mem_toList,
    Option.map_eq_some_iff, List.mem_flatMap] at ht
  rcases ht with (⟨sign, -, rfl⟩ | ht) | ⟨⟨sign, atom⟩, -, ht⟩
  · exact sign.uncompared
  · exact s.first.uncompared t ht
  · rcases List.mem_cons.1 ht with rfl | ht
    · exact sign.uncompared
    · exact atom.uncompared t ht

theorem marks_spelled_eq_zero {ts : List Token} (proper : ∀ t ∈ ts, t.Proper)
    (h : ∀ t ∈ ts, t.isComparison = false) : marks (spelled ts) = 0 := by
  refine List.countP_eq_zero.2 fun c hc mark => ?_
  obtain ⟨t, ht, hc⟩ := List.mem_flatMap.1 hc
  have compared := (Token.spells_of_mem (proper t ht) c hc).comparison
    (by simpa [isMark, or_assoc] using mark)
  rw [h t ht] at compared
  cases compared

namespace Reading

theorem marks_le (r : Reading) : marks (spelled r.words) ≤ 2 := by
  have left : marks (spelled r.left.words) = 0 :=
    marks_spelled_eq_zero (fun t ht => r.proper t (by simp [words, ht])) r.left.uncompared
  have right : marks (spelled r.right.words) = 0 :=
    marks_spelled_eq_zero (fun t ht => r.proper t (by simp [words, ht])) r.right.uncompared
  have comparison : marks (Token.comparison r.comparison).chars ≤ 2 := by
    cases r.comparison <;> decide
  unfold marks at left right comparison ⊢
  rw [words, spelled_append, spelled_cons, List.countP_append, List.countP_append, left, right]
  omega

/-- A text has a reading when it is spelled twice exactly if it has that one when it is spelled
once. -/
theorem text_eq_again_iff (r : Reading) (text : String) :
    r.text = normalize (normalize text) ↔ r.text = normalize text := by
  have chars (t : String) : r.text = normalize t ↔ spelled r.words = normalChars t.toList := by
    rw [Reading.text, normalize, String.ofList_inj]
  rw [chars, chars, toList_normalize]
  constructor
  · intro again
    have few : marks (normalChars text.toList) ≤ 2 := by
      rw [← marks_again, ← again]
      exact r.marks_le
    rw [again, normalChars_again few]
  · intro once
    rw [normalChars_again (by rw [← once]; exact r.marks_le), once]

end Reading

section Text
variable {α : Type} [Scalar α]

theorem shape_eq_ok_iff {text : String} {s : Shape α} :
    Shape.ofText text = .ok s ↔
      ∃ r : Reading, r.text = normalize text ∧ Shape.ofFormula r.formula = s := by
  constructor
  · intro h
    obtain ⟨f, read, rfl⟩ := map_ok_iff.1 h
    obtain ⟨r, same, rfl⟩ := text_of_ofText read
    exact ⟨r, same, rfl⟩
  · rintro ⟨r, same, rfl⟩
    rw [Shape.ofText, ofText_of_text same]
    rfl

/-- Spelling a text in the normal way before it is read makes no difference. -/
theorem ofText_normalize (text : String) :
    (LinearForm.ofText? (normalize text) : Option (LinearForm α)) = LinearForm.ofText? text ∧
      (∀ s : Shape α, Shape.ofText (normalize text) = .ok s ↔ Shape.ofText text = .ok s) ∧
      ((∃ s : Shape α, Shape.ofText text = .ok s) → normalize (normalize text) = normalize text) ∧
      normalize (normalize "==>") ≠ normalize "==>" := by
  have same (s : Shape α) : Shape.ofText (normalize text) = .ok s ↔ Shape.ofText text = .ok s := by
    rw [shape_eq_ok_iff, shape_eq_ok_iff]
    simp only [Reading.text_eq_again_iff]
  refine ⟨?_, same, ?_, ?_⟩
  · cases read : (Shape.ofText text : Except Misreading (Shape α)) with
    | ok s => rw [LinearForm.ofText?, LinearForm.ofText?, (same s).2 read, read]
    | error m =>
      cases again : (Shape.ofText (normalize text) : Except Misreading (Shape α)) with
      | ok s =>
        rw [(same s).1 again] at read
        cases read
      | error m' => rw [LinearForm.ofText?, LinearForm.ofText?, again, read]
  · rintro ⟨s, read⟩
    obtain ⟨r, h, -⟩ := shape_eq_ok_iff.1 read
    exact ((r.text_eq_again_iff text).2 h).symm.trans h
  · intro same
    have chars := congrArg String.toList same
    rw [toList_normalize, toList_normalize] at chars
    exact absurd chars (by decide +kernel)

end Text
end HalfPlane.Formula
