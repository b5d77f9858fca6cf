/-
Cutting a text into words and writing the words down again.

What is cut from a text spells it out (`spelled_of_scan`). The other way needs that no word
runs into the next one: a literal takes every digit and point it can reach, and a
comparison takes the equals sign behind it. Words of which no two literals and no two
comparisons stand side by side are `Spaced`, and those are cut from their own text again
(`scan_of_spaced`).
-/
import Mathlib.Data.List.Chain
import HalfPlane.Formula.Token

namespace HalfPlane.Formula
open Text

/-! ## Words as they are written -/

/-- A literal in a notation that is read: digits, with an optional point and further digits, or
a point with at least one digit. -/
structure Literal.Proper (l : Literal) : Prop where
  whole : ∀ c ∈ l.whole, isDigit c = true
  places : ∀ c ∈ l.places, isDigit c = true
  point : l.point = false → l.places = []
  digits : ¬ (l.whole = [] ∧ l.places = [])

instance (l : Literal) : Decidable l.Proper :=
  decidable_of_iff
    (l.whole.all isDigit = true ∧ l.places.all isDigit = true ∧
      (l.point = false → l.places = []) ∧ ¬ (l.whole = [] ∧ l.places = []))
    ⟨fun ⟨whole, places, point, digits⟩ =>
        ⟨List.all_eq_true.1 whole, List.all_eq_true.1 places, point, digits⟩,
      fun h => ⟨List.all_eq_true.2 h.whole, List.all_eq_true.2 h.places, h.point, h.digits⟩⟩

namespace Token

def chars (t : Token) : List Char := t.text.toList

def Proper : Token → Prop
  | .number l => l.Proper
  | _ => True

/-- Whether the second word may stand right behind the first. -/
def Before : Token → Token → Prop
  | .number _, .number _ => False
  | .comparison _, .comparison _ => False
  | _, _ => True

/-- Nothing at the front of a text would be taken into the word that ends there. -/
def EndsAt (t : Token) (rest : List Char) : Prop :=
  match t with
  | .number _ => ∀ c ∈ rest.head?, isDigit c = false ∧ c ≠ '.'
  | .comparison _ => ∀ c ∈ rest.head?, c ≠ '='
  | _ => True

theorem chars_number (l : Literal) :
    (Token.number l).chars = l.whole ++ (if l.point then ['.'] else []) ++ l.places :=
  String.toList_ofList

end Token

/-- Words that do not run into each other. -/
abbrev Spaced (ts : List Token) : Prop := ts.IsChain Token.Before

/-- The text that words spell out. -/
def spelled (ts : List Token) : List Char := ts.flatMap Token.chars

@[simp] theorem spelled_nil : spelled [] = [] := rfl

@[simp] theorem spelled_cons (t : Token) (ts : List Token) :
    spelled (t :: ts) = t.chars ++ spelled ts := rfl

theorem spelled_append (ts us : List Token) : spelled (ts ++ us) = spelled ts ++ spelled us :=
  List.flatMap_append

/-! ## Literals -/

theorem isDigit_point : isDigit '.' = false := by decide

theorem takeWhile_of_head? {p : Char → Bool} :
    ∀ {cs : List Char}, (∀ c ∈ cs.head?, p c = false) → cs.takeWhile p = [] ∧ cs.dropWhile p = cs
  | [], _ => ⟨rfl, rfl⟩
  | c :: cs, h => by
    have other : ¬ p c = true := by simp [h c rfl]
    rw [List.takeWhile_cons_of_neg other, List.dropWhile_cons_of_neg other]
    exact ⟨rfl, rfl⟩

theorem takeWhile_append {p : Char → Bool} {run cs : List Char} (h : ∀ c ∈ run, p c = true)
    (stop : ∀ c ∈ cs.head?, p c = false) :
    (run ++ cs).takeWhile p = run ∧ (run ++ cs).dropWhile p = cs := by
  obtain ⟨taken, dropped⟩ := takeWhile_of_head? stop
  rw [List.takeWhile_append_of_pos h, List.dropWhile_append_of_pos h, taken, dropped,
    List.append_nil]
  exact ⟨rfl, rfl⟩

namespace Literal

theorem split_none {c : Char} {cs : List Char} (digit : isDigit c = false) (point : c ≠ '.') :
    split (c :: cs) = none := by
  unfold split
  rw [List.dropWhile_cons_of_neg (by simp [digit]), List.takeWhile_cons_of_neg (by simp [digit])]
  dsimp only
  split
  · next h => exact absurd (List.cons.inj h).1 point
  · rfl

theorem split_proper {l : Literal} (h : l.Proper) {rest : List Char}
    (ends : (Token.number l).EndsAt rest) :
    split ((Token.number l).chars ++ rest) = some (l, rest) := by
  have noDigit : ∀ c ∈ rest.head?, isDigit c = false := fun c hc => (ends c hc).1
  obtain ⟨whole, point, places⟩ := l
  rw [Token.chars_number]
  cases point with
  | true =>
    have atPoint : ∀ c ∈ ('.' :: (places ++ rest)).head?, isDigit c = false :=
      fun c hc => by cases hc; exact isDigit_point
    obtain ⟨taken, dropped⟩ := takeWhile_append h.whole atPoint
    obtain ⟨further, left⟩ := takeWhile_append h.places noDigit
    have some : ¬ (whole = [] ∧ places = []) := h.digits
    simp [split, taken, dropped, further, left, some]
  | false =>
    obtain rfl : places = [] := h.point rfl
    obtain ⟨taken, dropped⟩ := takeWhile_append h.whole noDigit
    have some : whole ≠ [] := fun none => h.digits ⟨none, rfl⟩
    simp only [split, Bool.false_eq_true, if_false, List.append_nil, taken, dropped]
    rcases rest with _ | ⟨c, rest⟩
    · simp [some]
    · have noPoint : c ≠ '.' := (ends c rfl).2
      simp [some, noPoint]

theorem spells_of_split {cs rest : List Char} {l : Literal} (h : split cs = some (l, rest)) :
    (Token.number l).chars ++ rest = cs ∧ l.Proper := by
  have digits : ∀ (cs : List Char), ∀ c ∈ cs.takeWhile isDigit, isDigit c = true :=
    fun cs c hc => List.all_eq_true.1 List.all_takeWhile c hc
  have all := List.takeWhile_append_dropWhile (p := isDigit) (l := cs)
  rw [Token.chars_number]
  unfold split at h
  dsimp only at h
  split at h
  · next tail ht =>
    split at h
    · cases h
    · next some =>
      cases h
      refine ⟨?_, digits _, digits _, fun h => (Bool.noConfusion h), some⟩
      have rest := List.takeWhile_append_dropWhile (p := isDigit) (l := tail)
      rw [ht, ← rest] at all
      simpa using all
  · split at h
    · cases h
    · next some =>
      cases h
      refine ⟨?_, digits _, fun c hc => (List.not_mem_nil hc).elim, fun _ => rfl, fun h => some h.1⟩
      rw [if_neg (by simp), List.append_nil, List.append_nil]
      exact all

end Literal

/-! ## Words -/

namespace Token

theorem spells_of_split {cs rest : List Char} {t : Token} (h : Token.split cs = some (t, rest)) :
    t.chars ++ rest = cs ∧ t.Proper := by
  unfold Token.split at h
  split at h
  · next hl =>
    cases h
    exact Literal.spells_of_split hl
  · unfold splitSign at h
    split at h <;> cases h <;> exact ⟨rfl, trivial⟩

/-- The first character of a word that is no literal starts no literal. -/
theorem split_sign {t : Token} (other : ∀ l, t ≠ .number l) (rest : List Char) :
    Token.split (t.chars ++ rest) = splitSign (t.chars ++ rest) := by
  have sign : ∀ {c : Char} {cs : List Char}, isDigit c = false → c ≠ '.' →
      Token.split (c :: cs) = splitSign (c :: cs) := by
    intro c cs digit point
    simp only [Token.split, Literal.split_none digit point]
  rcases t with l | (_ | _) | _ | _ | _ | (_ | _ | _ | _ | _ | _)
  case number => exact absurd rfl (other l)
  all_goals exact sign (by decide) (by decide)

theorem splitSign_chars {t : Token} (other : ∀ l, t ≠ .number l) {rest : List Char}
    (ends : t.EndsAt rest) : splitSign (t.chars ++ rest) = some (t, rest) := by
  rcases t with l | (_ | _) | _ | _ | _ | (_ | _ | _ | _ | _ | _)
  case number => exact absurd rfl (other l)
  case comparison.lt | comparison.gt =>
    rcases rest with _ | ⟨c, rest⟩
    · rfl
    · have shut : c ≠ '=' := ends c rfl
      simp [chars, text, Comparison.symbol, splitSign, shut]
  all_goals rfl

theorem split_chars {t : Token} (proper : t.Proper) {rest : List Char} (ends : t.EndsAt rest) :
    Token.split (t.chars ++ rest) = some (t, rest) := by
  by_cases literal : ∃ l, t = .number l
  · obtain ⟨l, rfl⟩ := literal
    simp only [Token.split, Literal.split_proper proper ends]
  · have other : ∀ l, t ≠ .number l := fun l h => literal ⟨l, h⟩
    rw [split_sign other, splitSign_chars other ends]

/-- A word that may stand behind another does not run into it. -/
theorem endsAt_chars {t u : Token} (before : t.Before u) (proper : u.Proper) (rest : List Char) :
    t.EndsAt (u.chars ++ rest) := by
  cases t with
  | number l =>
    rcases u with m | (_ | _) | _ | _ | _ | (_ | _ | _ | _ | _ | _)
    case number => exact before.elim
    all_goals
      rintro c ⟨⟩
      decide
  | comparison a =>
    cases u with
    | comparison b => exact before.elim
    | number m =>
      obtain ⟨whole, point, places⟩ := m
      have digit : ∀ {c : Char}, isDigit c = true → c ≠ '=' := by
        rintro c hc rfl
        exact absurd hc (by decide)
      rw [chars_number]
      rcases whole with _ | ⟨d, whole⟩
      · cases point with
        | true => rintro c ⟨⟩; decide
        | false => exact absurd ⟨rfl, proper.point rfl⟩ proper.digits
      · rintro c ⟨⟩
        exact digit (proper.whole d (by simp))
    | unknown u => cases u <;> rintro c ⟨⟩ <;> decide
    | plus | minus | times => rintro c ⟨⟩; decide
  | unknown | plus | minus | times => trivial

theorem endsAt_nil (t : Token) : t.EndsAt [] := by
  cases t with
  | number | comparison => rintro c ⟨⟩
  | unknown | plus | minus | times => trivial

theorem endsAt_spelled {t : Token} {ts : List Token} (spaced : Spaced (t :: ts))
    (proper : ∀ u ∈ ts, u.Proper) : t.EndsAt (spelled ts) := by
  cases ts with
  | nil => exact t.endsAt_nil
  | cons u ts =>
    rw [spelled_cons]
    exact endsAt_chars (List.isChain_cons_cons.1 spaced).1 (proper u (by simp)) _

/-! ## Whole texts -/

theorem scan_cons {position : Nat} {c : Char} {cs rest : List Char} {t : Token}
    (h : Token.split (c :: cs) = some (t, rest)) :
    scan position (c :: cs) =
      (scan (position + ((c :: cs).length - rest.length)) rest).map (t :: ·) := by
  rw [scan]
  split
  · next none => rw [none] at h; cases h
  · next found => rw [found] at h; cases h; rfl

/-- The words cut from a text spell it out. -/
theorem spelled_of_scan {position : Nat} {cs : List Char} {ts : List Token}
    (h : scan position cs = .ok ts) : spelled ts = cs ∧ ∀ t ∈ ts, t.Proper := by
  fun_induction scan position cs generalizing ts with
  | case1 position =>
    cases h
    exact ⟨rfl, fun t ht => (List.not_mem_nil ht).elim⟩
  | case2 position c cs none => cases h
  | case3 position c cs t rest found shorter ih =>
    obtain ⟨front, proper⟩ := spells_of_split found
    cases more : scan (position + ((c :: cs).length - rest.length)) rest with
    | error e => rw [more] at h; cases h
    | ok us =>
      rw [more] at h
      cases h
      obtain ⟨spells, properRest⟩ := ih more
      refine ⟨by rw [spelled_cons, spells, front], fun u hu => ?_⟩
      rcases List.mem_cons.1 hu with rfl | hu
      · exact proper
      · exact properRest u hu

/-- Words that do not run into each other are cut from the text they spell out. -/
theorem scan_of_spaced (position : Nat) :
    ∀ {ts : List Token}, Spaced ts → (∀ t ∈ ts, t.Proper) → scan position (spelled ts) = .ok ts
  | [], _, _ => by rw [spelled_nil, scan]
  | t :: ts, spaced, proper => by
    have spacedRest : Spaced ts := spaced.tail
    have properRest : ∀ u ∈ ts, u.Proper := fun u hu => proper u (by simp [hu])
    have cut : Token.split (t.chars ++ spelled ts) = some (t, spelled ts) :=
      split_chars (proper t (by simp)) (endsAt_spelled spaced properRest)
    rw [spelled_cons]
    cases text : t.chars ++ spelled ts with
    | nil =>
      rw [text] at cut
      exact absurd (split_shorter cut) (Nat.not_lt_zero _)
    | cons c cs =>
      rw [text] at cut
      rw [scan_cons cut, scan_of_spaced _ spacedRest properRest]
      rfl

end Token
end HalfPlane.Formula
