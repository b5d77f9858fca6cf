/-
The normal spelling of a text, and that a formula spelled from its words has it already.

A text is `Settled` if no respelling finds anything in it: no blank, no character that has a
plainer look-alike, no comparison the wrong way round, and no two signs side by side. The words
of a reading are set so that none of that arises where one ends and the next begins
(`Reading.settled`). So a text is read as a formula as soon as it spells out the words of the
formula, wherever its blanks are (`Reading.text_eq_normalize`).
-/
import HalfPlane.Proofs.Formula.Reading

namespace HalfPlane

/-- The characters of a text that are no blanks. -/
def Text.blankless (s : String) : List Char := s.toList.filter fun c => !isBlank c

namespace Text

@[simp] theorem blankless_append (s t : String) :
    blankless (s ++ t) = blankless s ++ blankless t := by
  simp [blankless]

@[simp] theorem blankless_empty : blankless "" = [] := rfl

end Text

namespace Formula
open Text

/-! ## Texts that respelling leaves alone -/

/-- A character that no respelling is about. -/
def Clean (c : Char) : Prop :=
  isBlank c = false ∧ c ∉ ['−', '≤', '≥', '≠', 'X', 'Y']

instance (c : Char) : Decidable (Clean c) := inferInstanceAs (Decidable (_ ∧ _))

def IsSign (c : Char) : Prop := c = '+' ∨ c = '-'

instance (c : Char) : Decidable (IsSign c) := inferInstanceAs (Decidable (_ ∨ _))

/-- Two characters that no respelling is about when they stand side by side. -/
def Apart (c d : Char) : Prop := ¬ (IsSign c ∧ IsSign d) ∧ ¬ (c = '=' ∧ (d = '>' ∨ d = '<'))

instance (c d : Char) : Decidable (Apart c d) := inferInstanceAs (Decidable (_ ∧ _))

structure Settled (cs : List Char) : Prop where
  clean : ∀ c ∈ cs, Clean c
  apart : cs.IsChain Apart

theorem replaceChar_eq {old : Char} {new cs : List Char} (h : ∀ c ∈ cs, c ≠ old) :
    replaceChar old new cs = cs := by
  induction cs with
  | nil => rfl
  | cons c cs ih =>
    have other : c ≠ old := h c (by simp)
    have rest := ih fun d hd => h d (by simp [hd])
    rw [replaceChar] at rest ⊢
    rw [List.flatMap_cons, rest, if_neg other, List.singleton_append]

theorem replacePair_eq {p q : Char} {new cs : List Char}
    (h : cs.IsChain fun c d => ¬ (c = p ∧ d = q)) : replacePair p q new cs = cs := by
  fun_induction replacePair p q new cs with
  | case1 c d rest found ih => exact absurd found (List.isChain_cons_cons.1 h).1
  | case2 c d rest other ih => rw [ih h.tail]
  | case3 cs short => rfl

/-- No two signs stand side by side. -/
def Lone (cs : List Char) : Prop := cs.IsChain fun c d => ¬ (IsSign c ∧ IsSign d)

theorem Lone.signRound {cs : List Char} (h : Lone cs) : signRound cs = cs := by
  have pair {p q : Char} (new : List Char) (hp : IsSign p) (hq : IsSign q) :
      replacePair p q new cs = cs := by
    refine replacePair_eq (h.imp fun c d apart found => apart ?_)
    rw [found.1, found.2]
    exact ⟨hp, hq⟩
  have plus : IsSign '+' := .inl rfl
  have minus : IsSign '-' := .inr rfl
  simp only [Formula.signRound, pair _ plus plus, pair _ plus minus, pair _ minus plus,
    pair _ minus minus]

namespace Settled
variable {cs : List Char}

theorem lone (h : Settled cs) : Lone cs := h.apart.imp fun _ _ apart => apart.1

theorem respelled (h : Settled cs) : respelled cs = cs := by
  have char {old : Char} (new : List Char) (among : old ∈ ['−', '≤', '≥', '≠', 'X', 'Y']) :
      replaceChar old new cs = cs := by
    refine replaceChar_eq fun c hc same => (h.clean c hc).2 ?_
    rwa [same]
  have pair {q : Char} (new : List Char) (turned : q = '>' ∨ q = '<') :
      replacePair '=' q new cs = cs := by
    refine replacePair_eq (h.apart.imp fun c d apart found => apart.2 ⟨found.1, ?_⟩)
    rwa [found.2]
  simp [Formula.respelled, char, pair]

/-- Blanks aside, a text is spelled in the normal way if it is settled. -/
theorem normalChars_eq {text : List Char} (h : Settled cs)
    (written : text.filter (fun c => !isBlank c) = cs) : normalChars text = cs := by
  rw [normalChars, written, h.respelled, collapseSigns, if_neg (by rw [h.lone.signRound]; omega)]

end Settled

/-! ## Words -/

theorem clean_of_isDigit {c : Char} (h : isDigit c = true) : Clean c := by
  have all : ∀ z ∈ zeros, ∀ i < 10, Clean (Char.ofNat (z + i)) := by decide +kernel
  unfold isDigit digitValue? at h
  rw [Option.isSome_map, List.find?_isSome] at h
  obtain ⟨z, hz, within⟩ := h
  simp only [Bool.and_eq_true, decide_eq_true_eq] at within
  have clean := all z hz (c.toNat - z) (by omega)
  rwa [Nat.add_sub_cancel' within.1, Char.ofNat_toNat] at clean

namespace Token

def isSign : Token → Bool
  | .plus | .minus => true
  | _ => false

def isComparison : Token → Bool
  | .comparison _ => true
  | _ => false

/-- Signs stand only in the words for them, and so do the parts of comparisons. -/
structure Spells (t : Token) (c : Char) : Prop where
  clean : Clean c
  sign : IsSign c → t.isSign = true
  comparison : c = '=' ∨ c = '>' ∨ c = '<' → t.isComparison = true

instance (t : Token) (c : Char) : Decidable (t.Spells c) :=
  decidable_of_iff (Clean c ∧ (IsSign c → t.isSign = true) ∧
      (c = '=' ∨ c = '>' ∨ c = '<' → t.isComparison = true))
    ⟨fun ⟨clean, sign, compared⟩ => ⟨clean, sign, compared⟩,
      fun h => ⟨h.clean, h.sign, h.comparison⟩⟩

theorem spells_of_literal {l : Literal} (proper : l.Proper) :
    ∀ c ∈ (Token.number l).chars, (Token.number l).Spells c := by
  have digit {c : Char} (h : isDigit c = true) : (Token.number l).Spells c := by
    have other : ∀ d, isDigit d = false → c ≠ d := by
      rintro d no rfl
      rw [no] at h
      cases h
    refine ⟨clean_of_isDigit h, ?_, ?_⟩
    · rintro (same | same) <;> exact absurd same (other _ (by decide))
    · rintro (same | same | same) <;> exact absurd same (other _ (by decide))
  have point : (Token.number l).Spells '.' :=
    ⟨by decide, fun h => absurd h (by decide), fun h => absurd h (by decide)⟩
  intro c hc
  rw [chars_number, List.mem_append, List.mem_append] at hc
  rcases hc with (hc | hc) | hc
  · exact digit (proper.whole c hc)
  · split at hc
    · rwa [List.mem_singleton.1 hc]
    · exact (List.not_mem_nil hc).elim
  · exact digit (proper.places c hc)

theorem spells_of_mem {t : Token} (proper : t.Proper) : ∀ c ∈ t.chars, t.Spells c := by
  have all {t : Token} (h : (t.chars.all fun c => decide (t.Spells c)) = true) :
      ∀ c ∈ t.chars, t.Spells c := fun c hc => of_decide_eq_true (List.all_eq_true.1 h c hc)
  rcases t with l | (_ | _) | _ | _ | _ | (_ | _ | _ | _ | _ | _)
  case number => exact spells_of_literal proper
  all_goals exact all (by decide)

theorem chars_ne_nil {t : Token} (proper : t.Proper) : t.chars ≠ [] := by
  have cut := split_chars proper t.endsAt_nil
  intro empty
  rw [empty, List.append_nil] at cut
  exact absurd (split_shorter cut) (Nat.not_lt_zero _)

/-- No word is about to be respelled in itself. -/
theorem apart_chars {t : Token} (proper : t.Proper) : t.chars.IsChain Apart := by
  rcases t with l | (_ | _) | _ | _ | _ | (_ | _ | _ | _ | _ | _)
  case number =>
    refine List.Pairwise.isChain (List.pairwise_iff_forall_sublist.2 fun {c d} sub => ?_)
    have spells := spells_of_literal proper c (sub.subset (by simp))
    exact ⟨fun both => Bool.noConfusion (spells.sign both.1),
      fun both => Bool.noConfusion (spells.comparison (.inl both.1))⟩
  all_goals decide

theorem not_comparisons {t u : Token} (before : t.Before u) :
    ¬ (t.isComparison = true ∧ u.isComparison = true) := by
  rintro ⟨ht, hu⟩
  cases t <;> cases ht
  cases u <;> cases hu
  exact before

/-- Nor is the end of a word with the start of another, unless both are signs or both are
comparisons. -/
theorem apart_of_spells {t u : Token} (signs : ¬ (t.isSign = true ∧ u.isSign = true))
    (comparisons : ¬ (t.isComparison = true ∧ u.isComparison = true)) {c d : Char}
    (hc : t.Spells c) (hd : u.Spells d) : Apart c d :=
  ⟨fun both => signs ⟨hc.sign both.1, hd.sign both.2⟩,
    fun turned => comparisons ⟨hc.comparison (.inl turned.1), hd.comparison (.inr turned.2)⟩⟩

end Token

/-! ## Signs are set apart -/

/-- No two signs stand side by side. -/
abbrev Parted (ts : List Token) : Prop :=
  ts.IsChain fun t u => ¬ (t.isSign = true ∧ u.isSign = true)

theorem Parted.append {ts rest : List Token} (unsigned : ∀ t ∈ ts, t.isSign = false)
    (h : Parted rest) : Parted (ts ++ rest) := by
  induction ts with
  | nil => exact h
  | cons t ts ih =>
    refine List.isChain_cons.2 ⟨fun u _ both => ?_, ih fun u hu => unsigned u (by simp [hu])⟩
    rw [unsigned t (by simp)] at both
    exact Bool.noConfusion both.1

namespace Atom

theorem unsigned (a : Atom) : ∀ t ∈ a.words, t.isSign = false := by
  rcases a with ⟨l, _⟩ | ⟨l, _, _ | _, u⟩ | u <;> simp [words, Token.isSign]

theorem parted (s : Sign) (a : Atom) {rest : List Token} (h : Parted rest) :
    Parted (s.word :: (a.words ++ rest)) := by
  refine List.isChain_cons.2 ⟨fun t ht both => ?_, h.append a.unsigned⟩
  have first : t ∈ a.words := by
    rcases a with ⟨l, _⟩ | ⟨l, _, _ | _, u⟩ | u <;> cases ht <;> simp [words]
  rw [a.unsigned t first] at both
  exact Bool.noConfusion both.2

end Atom

theorem Summands.parted_otherWords {rest : List Token} (h : Parted rest) :
    ∀ others : List (Sign × Atom), Parted (otherWords others ++ rest)
  | [] => h
  | (sign, atom) :: others => by
    rw [otherWords_cons]
    exact atom.parted sign (parted_otherWords h others)

theorem Summands.parted (s : Summands) {rest : List Token} (h : Parted rest) :
    Parted (s.words ++ rest) := by
  obtain ⟨_ | sign, first, others⟩ := s
  · rw [words, List.append_assoc]
    exact (parted_otherWords h others).append first.unsigned
  · rw [words, List.append_assoc, List.append_assoc]
    exact first.parted sign (parted_otherWords h others)

namespace Reading

theorem parted (r : Reading) : Parted r.words := by
  have right := r.right.parted List.isChain_nil
  rw [List.append_nil] at right
  have unsigned : ∀ t ∈ [Token.comparison r.comparison], t.isSign = false := by
    simp [Token.isSign]
  exact r.left.parted (right.append unsigned)

/-- The words of a reading spell it out in the normal way. -/
theorem settled (r : Reading) : Settled (spelled r.words) where
  clean c hc := by
    obtain ⟨t, ht, hc⟩ := List.mem_flatMap.1 hc
    exact (Token.spells_of_mem (r.proper t ht) c hc).clean
  apart := by
    have written : [] ∉ r.words.map Token.chars := fun empty => by
      obtain ⟨t, ht, empty⟩ := List.mem_map.1 empty
      exact Token.chars_ne_nil (r.proper t ht) empty
    rw [spelled, List.flatMap_def, List.isChain_flatten written]
    constructor
    · intro cs hcs
      obtain ⟨t, ht, rfl⟩ := List.mem_map.1 hcs
      exact Token.apart_chars (r.proper t ht)
    · rw [List.isChain_map, List.isChain_iff_getElem]
      intro i hi c hc d hd
      have signs := List.isChain_iff_getElem.1 r.parted i hi
      have comparisons := Token.not_comparisons (List.isChain_iff_getElem.1 r.spaced i hi)
      have mem (j : Nat) (hj : j < r.words.length) := r.proper _ (List.getElem_mem hj)
      exact Token.apart_of_spells signs comparisons
        (Token.spells_of_mem (mem i (by omega)) c (List.mem_of_getLast? hc))
        (Token.spells_of_mem (mem (i + 1) hi) d (List.mem_of_head? hd))

/-- A text that spells out the words of a reading is read so, wherever its blanks are. -/
theorem text_eq_normalize {r : Reading} {text : String}
    (h : blankless text = spelled r.words) : r.text = normalize text := by
  rw [normalize, r.settled.normalChars_eq h, Reading.text]

end Reading

end Formula
end HalfPlane
