/-
The grammar of formulas, and that the reader of formulas reads exactly its texts.

A `Reading` is a formula word for word: two sums, each of atoms with signs between them, and
the comparison that joins them. Its text is what its words spell out, its formula is what
its atoms say. The reader of words takes the words of a reading and no others
(`ofTokens_words`, `words_of_ofTokens`), no two readings have the same words
(`Reading.words_injective`), and the words of a reading do not run into each other
(`Reading.spaced`), so texts are read as words are (`ofText_of_text`, `text_of_ofText`).
-/
import HalfPlane.Formula.Sum
import HalfPlane.Proofs.Formula.Words
import HalfPlane.Proofs.Success

namespace HalfPlane.Formula

/-! ## The grammar -/

inductive Sign where
  | plus
  | minus
deriving DecidableEq

def Sign.word : Sign → Token
  | .plus => .plus
  | .minus => .minus

def Sign.value {α : Type} [Scalar α] : Sign → α
  | .plus => 1.0
  | .minus => -1.0

/-- What stands between two signs: a literal, an unknown, or both, with or without a star between
them. -/
inductive Atom where
  | constant (l : Literal) (proper : l.Proper)
  | multiple (l : Literal) (proper : l.Proper) (star : Bool) (u : Unknown)
  | unknown (u : Unknown)

namespace Atom

def words : Atom → List Token
  | .constant l _ => [.number l]
  | .multiple l _ true u => [.number l, .times, .unknown u]
  | .multiple l _ false u => [.number l, .unknown u]
  | .unknown u => [.unknown u]

/-- The term that an atom behind a sign stands for. -/
def term {α : Type} [Scalar α] (sign : α) : Atom → Term α
  | .constant l _ => ⟨none, sign * l.value⟩
  | .multiple l _ _ u => ⟨some u, sign * l.value⟩
  | .unknown u => ⟨some u, sign⟩

end Atom

/-- One side of a formula: an atom that may have a sign, and further ones that have one. -/
structure Summands where
  sign : Option Sign
  first : Atom
  others : List (Sign × Atom)

namespace Summands

def otherWords (others : List (Sign × Atom)) : List Token :=
  others.flatMap fun (sign, atom) => sign.word :: atom.words

theorem otherWords_cons (s : Sign) (a : Atom) (others : List (Sign × Atom)) (rest : List Token) :
    otherWords ((s, a) :: others) ++ rest = s.word :: (a.words ++ (otherWords others ++ rest)) := by
  simp [otherWords]

def words (s : Summands) : List Token :=
  (s.sign.map Sign.word).toList ++ s.first.words ++ otherWords s.others

def otherTerms {α : Type} [Scalar α] (others : List (Sign × Atom)) : List (Term α) :=
  others.map fun (sign, atom) => atom.term sign.value

def terms {α : Type} [Scalar α] (s : Summands) : List (Term α) :=
  s.first.term ((s.sign.getD .plus).value) :: otherTerms s.others

end Summands

/-- A formula word for word. -/
structure Reading where
  left : Summands
  comparison : Comparison
  right : Summands

namespace Reading

def words (r : Reading) : List Token := r.left.words ++ .comparison r.comparison :: r.right.words

def text (r : Reading) : String := String.ofList (spelled r.words)

def formula {α : Type} [Scalar α] (r : Reading) : Formula α :=
  ⟨r.left.terms, r.comparison, r.right.terms⟩

end Reading

/-! ## Where an atom and a sum end -/

/-- The words start with none that would belong to an atom in front of them. -/
def EndsAtom (rest : List Token) : Prop :=
  ∀ t ∈ rest.head?, t = .plus ∨ t = .minus ∨ ∃ c, t = .comparison c

/-- Nor with one that would belong to a sum in front of them. -/
def EndsSum (rest : List Token) : Prop := ∀ t ∈ rest.head?, ∃ c, t = .comparison c

theorem EndsSum.nil : EndsSum [] := by rintro t ⟨⟩

theorem EndsSum.comparison (c : Comparison) (rest : List Token) :
    EndsSum (.comparison c :: rest) := by
  rintro t ⟨⟩
  exact ⟨c, rfl⟩

theorem EndsSum.endsAtom {rest : List Token} (h : EndsSum rest) : EndsAtom rest :=
  fun t ht => .inr (.inr (h t ht))

theorem endsAtom_otherWords (others : List (Sign × Atom)) {rest : List Token} (h : EndsSum rest) :
    EndsAtom (Summands.otherWords others ++ rest) := by
  rcases others with _ | ⟨⟨_ | _, atom⟩, others⟩
  · exact h.endsAtom
  · rintro t ⟨⟩; exact .inl rfl
  · rintro t ⟨⟩; exact .inr (.inl rfl)

section Read
variable {α : Type} [Scalar α]

/-! ## Words of a reading are read -/

theorem splitTerm_words (sign : α) (a : Atom) {rest : List Token} (h : EndsAtom rest) :
    splitTerm sign (a.words ++ rest) = .ok (a.term sign, rest) := by
  rcases a with ⟨l, proper⟩ | ⟨l, proper, _ | _, u⟩ | u
  · rcases rest with _ | ⟨t, rest⟩
    · rfl
    · rcases h t rfl with rfl | rfl | ⟨c, rfl⟩ <;> rfl
  all_goals rfl

@[simp] theorem sign?_word (s : Sign) : (s.word.sign? : Option α) = some s.value := by
  cases s <;> rfl

theorem splitTerms_stop {ts : List Token} (h : ∀ t ∈ ts.head?, (t.sign? : Option α) = none) :
    splitTerms ts = .ok (([] : List (Term α)), ts) := by
  rcases ts with _ | ⟨t, tail⟩
  · rw [splitTerms]
  · rw [splitTerms]
    split
    · rfl
    · next sign some => rw [h t rfl] at some; cases some

theorem splitTerms_sign (s : Sign) (tail : List Token) :
    (splitTerms (s.word :: tail) : Except Misreading (List (Term α) × List Token)) = do
      let (t, rest) ← splitTerm s.value tail
      let (more, rest) ← splitTerms rest
      return (t :: more, rest) := by
  rw [splitTerms]
  split
  · next none => rw [sign?_word] at none; cases none
  · next sign some =>
    rw [sign?_word] at some
    cases some
    split
    · next failed => rw [failed]; rfl
    · next t rest taken =>
      simp only [taken]
      show Except.map _ (splitTerms rest) = splitTerms rest >>= _
      cases (splitTerms rest : Except Misreading (List (Term α) × List Token)) <;> rfl

theorem splitTerms_words :
    ∀ (others : List (Sign × Atom)) {rest : List Token}, EndsSum rest →
      splitTerms (Summands.otherWords others ++ rest) =
        .ok ((Summands.otherTerms others : List (Term α)), rest)
  | [], rest, h => by
    refine splitTerms_stop fun t ht => ?_
    obtain ⟨c, rfl⟩ := h t ht
    rfl
  | (sign, atom) :: others, rest, h => by
    have front := splitTerm_words (sign.value : α) atom (endsAtom_otherWords others h)
    rw [Summands.otherWords_cons, splitTerms_sign, front]
    show splitTerms _ >>= _ = _
    rw [splitTerms_words others h]
    rfl

theorem splitFirst_sign (s : Sign) (tail : List Token) :
    splitFirst (s.word :: tail) = splitTerm (s.value : α) tail := by
  cases s <;> rfl

theorem splitFirst_words (sign : Option Sign) (a : Atom) {rest : List Token} (h : EndsAtom rest) :
    splitFirst ((sign.map Sign.word).toList ++ a.words ++ rest) =
      .ok (a.term ((sign.getD .plus).value : α), rest) := by
  cases sign with
  | some s =>
    rw [← splitTerm_words _ a h, ← splitFirst_sign]
    rfl
  | none =>
    rw [← splitTerm_words _ a h]
    rcases a with ⟨l, proper⟩ | ⟨l, proper, _ | _, u⟩ | u <;> rfl

theorem splitSide_words (s : Summands) {rest : List Token} (h : EndsSum rest) :
    splitSide (s.words ++ rest) = .ok ((s.terms : List (Term α)), rest) := by
  have front := splitFirst_words (α := α) s.sign s.first (endsAtom_otherWords s.others h)
  have more := splitTerms_words (α := α) s.others h
  rw [Summands.words, List.append_assoc, splitSide, front]
  show splitTerms _ >>= _ = _
  rw [more]
  rfl

/-- The words of a reading are read as its formula. -/
theorem ofTokens_words (r : Reading) : ofTokens r.words = .ok (r.formula : Formula α) := by
  have left := splitSide_words (α := α) r.left (.comparison r.comparison r.right.words)
  have right := splitSide_words (α := α) r.right .nil
  rw [List.append_nil] at right
  rw [ofTokens, Reading.words, left]
  show splitSide r.right.words >>= _ = _
  rw [right]
  rfl

/-! ## Words that are read are those of a reading -/

theorem words_of_splitTerm {sign : α} {ts rest : List Token} {t : Term α}
    (proper : ∀ w ∈ ts, w.Proper) (h : splitTerm sign ts = .ok (t, rest)) :
    ∃ a : Atom, a.words ++ rest = ts ∧ a.term sign = t := by
  unfold splitTerm at h
  split at h <;> cases h
  · next l u => exact ⟨.multiple l (proper (.number l) (by simp)) true u, rfl, rfl⟩
  · next l u => exact ⟨.multiple l (proper (.number l) (by simp)) false u, rfl, rfl⟩
  · next l _ _ _ => exact ⟨.constant l (proper (.number l) (by simp)), rfl, rfl⟩
  · next u => exact ⟨.unknown u, rfl, rfl⟩

theorem exists_sign {t : Token} {sign : α} (h : t.sign? = some sign) :
    ∃ s : Sign, t = s.word ∧ sign = s.value := by
  cases t <;> cases h
  · exact ⟨.plus, rfl, rfl⟩
  · exact ⟨.minus, rfl, rfl⟩

theorem words_of_splitTerms {ts rest : List Token} {terms : List (Term α)}
    (proper : ∀ w ∈ ts, w.Proper) (h : splitTerms ts = .ok (terms, rest)) :
    ∃ others, Summands.otherWords others ++ rest = ts ∧ Summands.otherTerms others = terms := by
  fun_induction splitTerms (α := α) ts generalizing terms rest with
  | case1 => cases h; exact ⟨[], rfl, rfl⟩
  | case2 t tail none => cases h; exact ⟨[], rfl, rfl⟩
  | case3 t tail sign some e failed => cases h
  | case4 t tail sign some term left taken shorter ih =>
    obtain ⟨sign, rfl, rfl⟩ := exists_sign some
    obtain ⟨atom, rfl, rfl⟩ :=
      words_of_splitTerm (fun w hw => proper w (List.mem_cons_of_mem _ hw)) taken
    have properLeft : ∀ w ∈ left, w.Proper := fun w hw => proper w (by simp [hw])
    obtain ⟨⟨terms, rest⟩, more, h⟩ := map_ok_iff.1 h
    cases h
    obtain ⟨others, rfl, rfl⟩ := ih properLeft more
    exact ⟨(sign, atom) :: others, Summands.otherWords_cons .., rfl⟩

theorem words_of_splitFirst {ts rest : List Token} {t : Term α} (proper : ∀ w ∈ ts, w.Proper)
    (h : splitFirst ts = .ok (t, rest)) :
    ∃ (sign : Option Sign) (a : Atom),
      (sign.map Sign.word).toList ++ a.words ++ rest = ts ∧
        a.term ((sign.getD .plus).value) = t := by
  unfold splitFirst at h
  split at h
  · cases h
  · next t tail =>
    split at h
    · obtain ⟨a, words, term⟩ := words_of_splitTerm proper h
      exact ⟨none, a, words, term⟩
    · next sign some =>
      obtain ⟨sign, rfl, rfl⟩ := exists_sign some
      have properTail : ∀ w ∈ tail, w.Proper := fun w hw => proper w (by simp [hw])
      obtain ⟨a, rfl, term⟩ := words_of_splitTerm properTail h
      exact ⟨.some sign, a, rfl, term⟩

theorem words_of_splitSide {ts rest : List Token} {terms : List (Term α)}
    (proper : ∀ w ∈ ts, w.Proper) (h : splitSide ts = .ok (terms, rest)) :
    ∃ s : Summands, s.words ++ rest = ts ∧ s.terms = terms := by
  obtain ⟨⟨t, left⟩, first, h⟩ := bind_ok_iff.1 h
  obtain ⟨⟨more, rest'⟩, behind, h⟩ := bind_ok_iff.1 h
  cases h
  obtain ⟨sign, atom, rfl, rfl⟩ := words_of_splitFirst proper first
  have properLeft : ∀ w ∈ left, w.Proper := fun w hw => proper w (by simp [hw])
  obtain ⟨others, rfl, rfl⟩ := words_of_splitTerms properLeft behind
  exact ⟨⟨sign, atom, others⟩, by simp [Summands.words], rfl⟩

theorem words_of_ofTokens {ts : List Token} {f : Formula α} (proper : ∀ w ∈ ts, w.Proper)
    (h : ofTokens ts = .ok f) : ∃ r : Reading, r.words = ts ∧ r.formula = f := by
  obtain ⟨⟨left, rest⟩, first, h⟩ := bind_ok_iff.1 h
  obtain ⟨⟨comparison, rest'⟩, middle, h⟩ := bind_ok_iff.1 h
  obtain ⟨⟨right, rest''⟩, last, h⟩ := bind_ok_iff.1 h
  obtain ⟨s, rfl, rfl⟩ := words_of_splitSide proper first
  obtain rfl : rest = .comparison comparison :: rest' := by
    unfold splitComparison at middle
    split at middle <;> cases middle
    rfl
  have properLast : ∀ w ∈ rest', w.Proper := fun w hw => proper w (by simp [hw])
  obtain ⟨t, rfl, rfl⟩ := words_of_splitSide properLast last
  dsimp only at h
  split at h
  · cases h
    exact ⟨⟨s, comparison, t⟩, by simp [Reading.words], rfl⟩
  · cases h

end Read

/-! ## One reading at most -/

theorem Atom.words_injective {a b : Atom} {rest rest' : List Token} (ha : EndsAtom rest)
    (hb : EndsAtom rest') (h : a.words ++ rest = b.words ++ rest') : a = b ∧ rest = rest' := by
  have notTimes : ∀ {rest : List Token}, EndsAtom rest → ∀ tail, rest ≠ .times :: tail := by
    rintro rest ends tail rfl
    rcases ends _ rfl with h | h | ⟨c, h⟩ <;> cases h
  have notUnknown : ∀ {rest : List Token}, EndsAtom rest → ∀ u tail, rest ≠ .unknown u :: tail := by
    rintro rest ends u tail rfl
    rcases ends _ rfl with h | h | ⟨c, h⟩ <;> cases h
  rcases a with ⟨l, _⟩ | ⟨l, _, _ | _, u⟩ | u <;> rcases b with ⟨m, _⟩ | ⟨m, _, _ | _, v⟩ | v <;>
    simp_all [Atom.words]
  case multiple.false.constant => exact notUnknown hb _ _ h.2.symm
  case multiple.true.constant => exact notTimes hb _ h.2.symm

theorem Summands.otherWords_injective :
    ∀ {others others' : List (Sign × Atom)} {rest rest' : List Token}, EndsSum rest →
      EndsSum rest' → otherWords others ++ rest = otherWords others' ++ rest' →
      others = others' ∧ rest = rest'
  | [], [], _, _, _, _, h => ⟨rfl, h⟩
  | [], (sign, _) :: _, rest, _, hr, _, h => by
    obtain ⟨c, hc⟩ := hr sign.word (by rw [show rest = _ from h]; rfl)
    cases sign <;> cases hc
  | (sign, _) :: _, [], _, rest', _, hr, h => by
    obtain ⟨c, hc⟩ := hr sign.word (by rw [show rest' = _ from h.symm]; rfl)
    cases sign <;> cases hc
  | (s, a) :: others, (t, b) :: others', rest, rest', hr, hr', h => by
    rw [otherWords_cons, otherWords_cons] at h
    obtain ⟨word, tail⟩ := List.cons.inj h
    obtain ⟨rfl, behind⟩ := Atom.words_injective (endsAtom_otherWords others hr)
      (endsAtom_otherWords others' hr') tail
    obtain ⟨rfl, rfl⟩ := otherWords_injective hr hr' behind
    have sign : s = t := by cases s <;> cases t <;> first | rfl | cases word
    rw [sign]
    exact ⟨rfl, rfl⟩

theorem Summands.words_injective {s t : Summands} {rest rest' : List Token} (hr : EndsSum rest)
    (hr' : EndsSum rest') (h : s.words ++ rest = t.words ++ rest') : s = t ∧ rest = rest' := by
  obtain ⟨sign, a, others⟩ := s
  obtain ⟨sign', b, others'⟩ := t
  simp only [words, List.append_assoc] at h
  have sameSign : sign = sign' := by
    rcases sign with _ | _ | _ <;> rcases sign' with _ | _ | _ <;>
      rcases a with ⟨l, _⟩ | ⟨l, _, _ | _, u⟩ | u <;>
      rcases b with ⟨m, _⟩ | ⟨m, _, _ | _, v⟩ | v <;>
      first | rfl | cases h
  subst sameSign
  obtain ⟨rfl, tail⟩ := Atom.words_injective (endsAtom_otherWords others hr)
    (endsAtom_otherWords others' hr') (List.append_cancel_left h)
  obtain ⟨rfl, rfl⟩ := otherWords_injective hr hr' tail
  exact ⟨rfl, rfl⟩

theorem Reading.words_injective {r r' : Reading} (h : r.words = r'.words) : r = r' := by
  obtain ⟨s, c, t⟩ := r
  obtain ⟨s', c', t'⟩ := r'
  obtain ⟨rfl, rest⟩ := Summands.words_injective (.comparison _ _) (.comparison _ _) h
  obtain ⟨same, rest⟩ := List.cons.inj rest
  cases same
  obtain ⟨rfl, -⟩ := Summands.words_injective .nil .nil (congrArg (· ++ []) rest)
  rfl

/-! ## The text of a reading -/

theorem Sign.before (s : Sign) (t : Token) : s.word.Before t := by
  cases s <;> trivial

namespace Atom

theorem proper (a : Atom) : ∀ t ∈ a.words, t.Proper := by
  rcases a with ⟨l, proper⟩ | ⟨l, proper, _ | _, u⟩ | u <;> simp [words, Token.Proper, *]

theorem spaced (a : Atom) {rest : List Token} (ends : EndsAtom rest) (h : Spaced rest) :
    Spaced (a.words ++ rest) := by
  have behind : ∀ {t : Token}, (∀ c, t ≠ .comparison c) → ∀ u ∈ rest.head?, t.Before u := by
    intro t other u hu
    rcases ends u hu with rfl | rfl | ⟨c, rfl⟩ <;> cases t <;> first | trivial | exact other _ rfl
  rcases a with ⟨l, _⟩ | ⟨l, _, _ | _, u⟩ | u <;>
    simp only [words, List.cons_append, List.nil_append, List.isChain_cons, h, and_true]
  case constant | unknown => exact behind (by simp)
  case multiple.false => exact ⟨by simp [Token.Before], behind (by simp)⟩
  case multiple.true =>
    exact ⟨by simp [Token.Before], by simp [Token.Before], behind (by simp)⟩

end Atom

namespace Summands

theorem otherWords_proper (others : List (Sign × Atom)) : ∀ t ∈ otherWords others, t.Proper := by
  intro t ht
  obtain ⟨⟨sign, atom⟩, -, ht⟩ := List.mem_flatMap.1 ht
  rcases List.mem_cons.1 ht with rfl | ht
  · cases sign <;> trivial
  · exact atom.proper t ht

theorem otherWords_spaced {rest : List Token} (ends : EndsSum rest) (h : Spaced rest) :
    ∀ others : List (Sign × Atom), Spaced (otherWords others ++ rest)
  | [] => h
  | (sign, atom) :: others => by
    rw [otherWords_cons]
    exact List.isChain_cons.2 ⟨fun t _ => sign.before t,
      atom.spaced (endsAtom_otherWords others ends) (otherWords_spaced ends h others)⟩

theorem proper (s : Summands) : ∀ t ∈ s.words, t.Proper := by
  intro t ht
  simp only [words, List.mem_append, Option.mem_toList, Option.map_eq_some_iff] at ht
  rcases ht with (⟨sign, -, rfl⟩ | ht) | ht
  · cases sign <;> trivial
  · exact s.first.proper t ht
  · exact otherWords_proper s.others t ht

theorem spaced (s : Summands) {rest : List Token} (ends : EndsSum rest) (h : Spaced rest) :
    Spaced (s.words ++ rest) := by
  obtain ⟨sign, first, others⟩ := s
  have behind : Spaced (first.words ++ (otherWords others ++ rest)) :=
    first.spaced (endsAtom_otherWords others ends) (otherWords_spaced ends h others)
  rw [words, List.append_assoc, List.append_assoc]
  cases sign with
  | none => exact behind
  | some sign => exact List.isChain_cons.2 ⟨fun t _ => sign.before t, behind⟩

/-- A sum does not start with a comparison. -/
theorem before_words (c : Comparison) (s : Summands) :
    ∀ t ∈ s.words.head?, (Token.comparison c).Before t := by
  obtain ⟨_ | _ | _, ⟨l, _⟩ | ⟨l, _, _ | _, u⟩ | u, others⟩ := s <;> rintro t ⟨⟩ <;> trivial

end Summands

namespace Reading

theorem proper (r : Reading) : ∀ t ∈ r.words, t.Proper := by
  intro t ht
  simp only [words, List.mem_append, List.mem_cons] at ht
  rcases ht with ht | rfl | ht
  · exact r.left.proper t ht
  · trivial
  · exact r.right.proper t ht

theorem spaced (r : Reading) : Spaced r.words := by
  have right : Spaced r.right.words := by
    have alone := r.right.spaced .nil .nil
    rwa [List.append_nil] at alone
  exact r.left.spaced (.comparison _ _) (List.isChain_cons.2 ⟨r.right.before_words _, right⟩)

theorem scan_words (position : Nat) (r : Reading) :
    Token.scan position (spelled r.words) = .ok r.words :=
  Token.scan_of_spaced position r.spaced r.proper

end Reading

/-! ## Reading a text -/

section Text
variable {α : Type} [Scalar α]

theorem tokens_of_text {text : String} {r : Reading} (h : r.text = normalize text) :
    tokens text = .ok r.words := by
  have chars : spelled r.words = normalChars text.toList := String.ofList_injective h
  rw [tokens, ← chars, r.scan_words]

theorem ofText_of_text {text : String} {r : Reading} (h : r.text = normalize text) :
    ofText text = .ok (r.formula : Formula α) := by
  rw [ofText, tokens_of_text h]
  exact ofTokens_words r

theorem text_of_ofText {text : String} {f : Formula α} (h : ofText text = .ok f) :
    ∃ r : Reading, r.text = normalize text ∧ r.formula = f := by
  obtain ⟨ts, cut, read⟩ := bind_ok_iff.1 h
  obtain ⟨spells, proper⟩ := Token.spelled_of_scan cut
  obtain ⟨r, rfl, formula⟩ := words_of_ofTokens proper read
  exact ⟨r, by rw [Reading.text, spells, normalize], formula⟩

theorem Reading.eq_of_text {r r' : Reading} (h : r.text = r'.text) : r = r' := by
  have chars : spelled r.words = spelled r'.words := String.ofList_injective h
  have cut := r.scan_words 0
  rw [chars, r'.scan_words] at cut
  exact Reading.words_injective (Except.ok.inj cut).symm

end Text
end HalfPlane.Formula
