/-
The two renderings of a form, and the terms that they show.

The plain text shows the terms whose coefficients are not zero, with their signs
(`exists_plainSum`). The typeset text shows the terms whose fractions are not zero
(`exists_latexSum`), and the fraction of a coefficient is zero if the coefficient is at most half of
the smallest fraction in size. So the two show the same terms exactly for the forms without such a
coefficient (`renderings_agree_iff`).
-/
import HalfPlane.Proofs.Double.Forms
import HalfPlane.Proofs.Double.Values
import HalfPlane.Proofs.Form.Fraction
import HalfPlane.Proofs.Form.Terms

namespace HalfPlane
open Scalar Formula

namespace Formula

/-! ## Texts of numbers -/

theorem neutral_of_isDigit {c : Char} (h : Text.isDigit c = true) : Neutral c := by
  have other {d : Char} (no : Text.isDigit d = false) : c ≠ d := by
    rintro rfl
    rw [h] at no
    cases no
  refine ⟨?_, other (by decide), other (by decide)⟩
  unfold signOf?
  split
  · next is => exact absurd rfl (other (d := '+') (by decide))
  · next is => exact absurd rfl (other (d := '-') (by decide))
  · rfl

theorem neutral_of_all {cs : List Char} (h : (cs.all fun c => decide (Neutral c)) = true) :
    ∀ c ∈ cs, Neutral c :=
  fun c hc => of_decide_eq_true (List.all_eq_true.1 h c hc)

theorem blankless_toString (n : ℕ) : Text.blankless (toString n) = Decimal.digits n := by
  rw [← Literal.text_ofNat, Literal.blankless_text (Literal.proper_ofNat n)]
  rw [Token.chars_number]
  simp [Literal.ofNat]

/-- The text of an unknown, if there is one. -/
def unknownName : Option Unknown → String
  | none => ""
  | some u => u.name

theorem blankless_unknownName (unknown : Option Unknown) :
    Text.blankless (unknownName unknown) = unknownChars unknown := by
  rcases unknown with _ | _ | _ <;> decide

end Formula

/-- The terms of some coefficients, without those that are zero. -/
def signedTerms (coefficients : List (ℚ × Option Unknown)) : List (Sign × Option Unknown) :=
  (coefficients.filter (·.1 ≠ 0)).map fun t => (Sign.ofValue t.1, t.2)

section Terms
variable {r : ℚ} {unknown : Option Unknown} {coefficients : List (ℚ × Option Unknown)}

theorem signedTerms_zero (h : r = 0) :
    signedTerms ((r, unknown) :: coefficients) = signedTerms coefficients := by
  simp [signedTerms, h]

theorem signedTerms_cons (h : r ≠ 0) :
    signedTerms ((r, unknown) :: coefficients) =
      (Sign.ofValue r, unknown) :: signedTerms coefficients := by
  simp [signedTerms, h]

theorem isEmpty_signedTerms : (signedTerms [(r, unknown)]).isEmpty = decide (r = 0) := by
  by_cases zero : r = 0
  · rw [signedTerms_zero zero, decide_eq_true zero]
    rfl
  · rw [signedTerms_cons zero, decide_eq_false zero]
    rfl

theorem signedTerms_append (others : List (ℚ × Option Unknown)) :
    signedTerms (coefficients ++ others) = signedTerms coefficients ++ signedTerms others := by
  rw [signedTerms, List.filter_append, List.map_append]
  rfl

/-- No term is lost with some coefficients, exactly if these are all zero. -/
theorem signedTerms_filter (kept : ℚ × Option Unknown → Bool) :
    ((signedTerms (coefficients.filter kept)).length = (signedTerms coefficients).length ↔
        ∀ t ∈ coefficients, t.1 = 0 ∨ kept t = true) ∧
      ((∀ t ∈ coefficients, t.1 = 0 ∨ kept t = true) →
        signedTerms (coefficients.filter kept) = signedTerms coefficients) := by
  have all : (∀ t ∈ coefficients.filter (·.1 ≠ 0), kept t = true) ↔
      ∀ t ∈ coefficients, t.1 = 0 ∨ kept t = true := by
    simp only [List.mem_filter, decide_eq_true_eq, and_imp, or_iff_not_imp_left, ne_eq]
  rw [signedTerms, signedTerms, List.length_map, List.length_map, List.filter_comm, ← all]
  refine ⟨List.length_filter_eq_length_iff, fun h => ?_⟩
  rw [List.filter_eq_self.2 h]

end Terms

namespace LinearForm

/-! ## The typeset text -/

/-- The factor of a fraction in front of an unknown, and the unknown. -/
theorem exists_latexFactor (n : ℕ) (unknown : Option Unknown) :
    ∃ front, Text.blankless
        (if unknownName unknown = "" then toString n
          else if n = 1 then unknownName unknown
          else toString n ++ " " ++ unknownName unknown) = front ++ unknownChars unknown ∧
      (∀ c ∈ front, Neutral c) ∧ (unknown = none → front = Decimal.digits n) := by
  have neutral : ∀ c ∈ Decimal.digits n, Neutral c := fun c hc =>
    neutral_of_isDigit (Decimal.isDigit_digits c hc)
  cases unknown with
  | none =>
    refine ⟨Decimal.digits n, ?_, neutral, fun _ => rfl⟩
    show Text.blankless (toString n) = Decimal.digits n ++ []
    rw [blankless_toString, List.append_nil]
  | some u =>
    have named : unknownName (some u) ≠ "" := by cases u <;> decide
    rw [if_neg named]
    split
    · exact ⟨[], blankless_unknownName _, by simp, fun none => by cases none⟩
    · refine ⟨Decimal.digits n, ?_, neutral, fun none => by cases none⟩
      rw [Text.blankless_append, Text.blankless_append, blankless_toString, blankless_unknownName]
      have blank : Text.blankless " " = [] := by decide
      rw [blank, List.append_nil]

theorem blankless_latexFraction (above below : String) :
    Text.blankless (latexFraction above below) =
      ['\\', 'f', 'r', 'a', 'c', '\x7b'] ++ Text.blankless above ++ ['\x7d', '\x7b'] ++
        Text.blankless below ++ ['\x7d'] := by
  have opening : Text.blankless "\\frac\x7b" = ['\\', 'f', 'r', 'a', 'c', '\x7b'] := by decide
  have middle : Text.blankless "\x7d\x7b" = ['\x7d', '\x7b'] := by decide
  have closing : Text.blankless "\x7d" = ['\x7d'] := by decide
  simp only [latexFraction, Text.blankless_append, opening, middle, closing]

theorem body_latexMagnitude (r : ℚ) (unknown : Option Unknown) :
    Body unknown (Text.blankless (latexMagnitude r (unknownName unknown))) := by
  obtain ⟨front, factor, neutral, alone⟩ := exists_latexFactor r.num.natAbs unknown
  unfold latexMagnitude
  dsimp only
  generalize (if unknownName unknown = "" then toString r.num.natAbs else _) = text at factor ⊢
  split
  · refine ⟨?_, front, [], by rw [factor, List.append_nil], neutral, by simp⟩
    rw [factor]
    rcases unknown with _ | _ | _
    · rw [alone rfl, unknownChars, List.append_nil]
      exact Decimal.digits_ne_nil _
    · simp [unknownChars]
    · simp [unknownChars]
  · have written : Text.blankless (latexFraction text (toString r.den)) =
        (['\\', 'f', 'r', 'a', 'c', '\x7b'] ++ front) ++ unknownChars unknown ++
          (['\x7d', '\x7b'] ++ Decimal.digits r.den ++ ['\x7d']) := by
      rw [blankless_latexFraction, factor, blankless_toString]
      simp only [List.append_assoc]
    rw [written]
    refine ⟨by simp, _, _, rfl, fun c hc => ?_, fun c hc => ?_⟩
    · rcases List.mem_append.1 hc with hc | hc
      · exact neutral_of_all (by decide) c hc
      · exact neutral c hc
    · simp only [List.mem_append] at hc
      rcases hc with (hc | hc) | hc
      · exact neutral_of_all (by decide) c hc
      · exact neutral_of_isDigit (Decimal.isDigit_digits c hc)
      · exact neutral_of_all (by decide) c hc

theorem latexMagnitude_ne_zero {r : ℚ} (h : r ≠ 0) (unknown : Option Unknown) :
    Text.blankless (latexMagnitude r (unknownName unknown)) ≠ ['0'] := by
  intro zero
  have shown := (body_latexMagnitude r unknown).unknownIn_eq
  rw [zero] at shown
  obtain rfl : unknown = none := shown.symm.trans (by decide)
  unfold latexMagnitude at zero
  dsimp only at zero
  rw [if_pos (show unknownName none = "" from rfl)] at zero
  split at zero
  · have value := Decimal.digitsValue_digits r.num.natAbs
    rw [← blankless_toString, zero] at value
    exact h (Rat.num_eq_zero.1 (Int.natAbs_eq_zero.1 (value.symm.trans (by decide))))
  · rw [blankless_latexFraction] at zero
    simp at zero

theorem blankless_latexSign (first : Bool) (r : ℚ) (unknown : String) :
    Text.blankless (latexSign first r unknown) = (Sign.ofValue r).marks first := by
  unfold latexSign Sign.ofValue
  by_cases neg : r < 0
  · cases first
    · simp only [neg, decide_true, if_true]
      decide
    · simp only [neg, decide_true, if_true]
      split <;> decide
  · cases first <;> simp only [neg, decide_false, if_false] <;> decide

/-- The text of signed fractions is the text of a sum, and no lone zero. -/
theorem sumText_latexTerms (first : Bool) (terms : List (ℚ × Option Unknown)) :
    SumText first
        (Text.blankless (latexTerms first (terms.map fun t => (t.1, unknownName t.2))))
        (signedTerms terms) ∧
      Text.blankless (latexTerms first (terms.map fun t => (t.1, unknownName t.2))) ≠ ['0'] := by
  induction terms generalizing first with
  | nil => exact ⟨.nil, by simp [latexTerms]⟩
  | cons t terms ih =>
    obtain ⟨r, unknown⟩ := t
    rw [List.map_cons, latexTerms]
    by_cases zero : r = 0
    · rw [if_pos zero, signedTerms_zero zero]
      exact ih first
    · rw [if_neg zero, signedTerms_cons zero, Text.blankless_append, Text.blankless_append,
        blankless_latexSign]
      have body := body_latexMagnitude r unknown
      refine ⟨.cons body (ih false).1, fun lone => ?_⟩
      -- One character has only room for the magnitude.
      have lengths := congrArg List.length lone
      have some := List.length_pos_iff.2 body.some
      simp only [List.length_append, List.length_singleton] at lengths
      have marks := List.length_eq_zero_iff.1 (by omega : ((Sign.ofValue r).marks first).length = 0)
      have rest := List.length_eq_zero_iff.1 (by omega : (Text.blankless (latexTerms false
        (terms.map fun t => (t.1, unknownName t.2)))).length = 0)
      rw [marks, rest, List.nil_append, List.append_nil] at lone
      exact latexMagnitude_ne_zero zero unknown lone

/-- The fractions of a form, in the order of its text. -/
def fractions {α : Type} [Exact α] (f : LinearForm α) : List (ℚ × Option Unknown) :=
  [(coefficientFraction f.a, some .x), (coefficientFraction f.b, some .y),
    (coefficientFraction f.c, none)]

theorem exists_latexOrder (a b c : ℚ) : ∃ terms : List (ℚ × Option Unknown),
    latexOrder a b c = terms.map (fun t => (t.1, unknownName t.2)) ∧
      terms.Perm [(a, some .x), (b, some .y), (c, none)] := by
  unfold latexOrder
  split
  · exact ⟨[(c, none), (a, some .x), (b, some .y)], rfl,
      (List.perm_append_singleton (c, none) [(a, some Unknown.x), (b, some Unknown.y)]).symm⟩
  · exact ⟨_, rfl, .refl _⟩

/-- The typeset text shows the terms whose fractions are not zero, in some order. -/
theorem exists_latexSum {α : Type} [Exact α] (f : LinearForm α) :
    ∃ sum, f.latex = sum ++ " " ++ latexSymbol f.operator ++ " 0" ∧
      (shownTerms sum).Perm (signedTerms f.fractions) := by
  obtain ⟨terms, order, perm⟩ := exists_latexOrder (coefficientFraction f.a)
    (coefficientFraction f.b) (coefficientFraction f.c)
  obtain ⟨text, notZero⟩ := sumText_latexTerms true terms
  have shown : (signedTerms terms).Perm (signedTerms f.fractions) :=
    (perm.filter _).map _
  rw [← order] at text notZero
  refine ⟨_, rfl, ?_⟩
  split
  · next empty =>
    -- A sum without terms is written as a zero.
    rw [empty] at text
    have none : shownTerms "" = signedTerms terms := text.shownTerms_eq (by decide)
    have zero : shownTerms "0" = shownTerms "" := by decide
    rwa [zero, none]
  · rwa [text.shownTerms_eq notZero]

/-! ## The plain text -/

section Plain
variable {α : Type} [Scalar α] [Exact α]

omit [Scalar α] in
theorem nearest?_of_numeral {m : α} {q : ℚ} (h : Exact.numeral m = .finite false q) :
    nearest? m = .ok (nearestInteger q) := by
  rw [nearest?, h]
  rfl

omit [Scalar α] in
theorem fixedText_of_numeral {m : α} {q : ℚ} (h : Exact.numeral m = .finite false q) (places : ℕ) :
    fixedText places m = Decimal.fixed places q := by
  rw [fixedText, h]
  exact String.empty_append

/-- A magnitude is written as a literal. -/
theorem exists_plainNumber {m : α} {q : ℚ} (h : Exact.numeral m = .finite false q)
    (nonneg : 0 ≤ q) : ∃ l : Literal, l.Proper ∧ plainNumber m = .ok l.text := by
  have natural : ((nearestInteger q).toNat : ℤ) = nearestInteger q :=
    Int.toNat_of_nonneg (nearestInteger_nonneg nonneg)
  rw [plainNumber, nearest?_of_numeral h, fixedText_of_numeral h]
  show ∃ l : Literal, l.Proper ∧
    (if negligible (m - ofInt (nearestInteger q)) = true then _ else _) = _
  split
  · refine ⟨.ofNat (nearestInteger q).toNat, Literal.proper_ofNat _, ?_⟩
    rw [Literal.text_ofNat, ← natural]
    rfl
  · refine ⟨.ofUnits 12 (nearestInteger (q * 10 ^ 12)).toNat, Literal.proper_ofUnits, ?_⟩
    rw [Decimal.fixed_eq (by decide), String.toList_ofList, Literal.text_ofUnits]
    rfl

variable {v : α}

theorem blankless_signText_of (first : Bool) (h : Valued v) :
    Text.blankless (signText first v) = (Sign.ofValue (exactValue v)).marks first := by
  unfold signText Sign.ofValue
  by_cases neg : exactValue v < 0
  · simp only [h.negative, neg, decide_true, if_true]
    cases first <;> decide
  · simp only [h.negative, neg, decide_false, if_false]
    cases first <;> decide

/-- A literal, and an unknown behind it or none, are the body of a term. -/
theorem body_literal {l : Literal} (proper : l.Proper) (unknown : Option Unknown) :
    Body unknown (Text.blankless (l.text ++ unknownName unknown)) := by
  have neutral : ∀ c ∈ (Token.number l).chars, Neutral c := by
    intro c hc
    rw [Token.chars_number, List.mem_append, List.mem_append] at hc
    rcases hc with (hc | hc) | hc
    · exact neutral_of_isDigit (proper.whole c hc)
    · split at hc
      · rw [List.mem_singleton.1 hc]
        decide
      · cases hc
    · exact neutral_of_isDigit (proper.places c hc)
  rw [Text.blankless_append, Literal.blankless_text proper, blankless_unknownName]
  exact ⟨List.append_ne_nil_of_left_ne_nil (Token.chars_ne_nil (t := .number l) proper) _, _, [],
    (List.append_nil _).symm, neutral, by simp⟩

theorem body_unknown (u : Unknown) : Body (some u) (Text.blankless u.name) := by
  cases u
  · exact ⟨by decide, [], [], by decide, by simp, by simp⟩
  · exact ⟨by decide, [], [], by decide, by simp, by simp⟩

/-- What is written of a coefficient: nothing, or a term. -/
theorem exists_part {first : Bool} {unknown : Option Unknown} (h : Valued v)
    {term : Except Fault String} (there : ∃ body, term = .ok (signText first v ++ body) ∧
      Body unknown (Text.blankless body)) :
    ∃ text, (if isZero v then pure "" else term) = .ok text ∧
      SumText first (Text.blankless text) (signedTerms [(exactValue v, unknown)]) := by
  by_cases zero : isZero v = true
  · rw [if_pos zero, signedTerms_zero (h.isZero.1 zero)]
    exact ⟨"", rfl, .nil⟩
  · obtain ⟨body, written, shows⟩ := there
    rw [if_neg zero, signedTerms_cons (mt h.isZero.2 zero)]
    refine ⟨_, written, ?_⟩
    rw [Text.blankless_append, blankless_signText_of first h, ← List.append_nil (_ ++ _)]
    exact .cons shows .nil

theorem exists_plainTerm (first : Bool) (h : Valued v) (u : Unknown) :
    ∃ body, plainTerm first v u.name = .ok (signText first v ++ body) ∧
      Body (some u) (Text.blankless body) := by
  unfold plainTerm
  dsimp only
  split
  · refine ⟨u.name, ?_, body_unknown u⟩
    show Except.ok (signText first v ++ "" ++ u.name) = _
    rw [String.append_empty]
  · obtain ⟨l, proper, written⟩ := exists_plainNumber h.magnitude (abs_nonneg _)
    refine ⟨l.text ++ u.name, ?_, body_literal proper (some u)⟩
    rw [written, ← String.append_assoc]
    rfl

theorem exists_plainConstant (h : Valued v) :
    ∃ body, plainConstant v = .ok (signText false v ++ body) ∧
      Body none (Text.blankless body) := by
  obtain ⟨l, proper, written⟩ := exists_plainNumber h.magnitude (abs_nonneg _)
  refine ⟨l.text, ?_, ?_⟩
  · rw [plainConstant, written]
    rfl
  · have body := body_literal proper none
    rwa [unknownName, String.append_empty] at body

end Plain

/-! ## Both texts -/

/-- The exact coefficients of a form, in the order of its text. -/
def coefficients {α : Type} [Exact α] (f : LinearForm α) : List (ℚ × Option Unknown) :=
  [(exactValue f.a, some .x), (exactValue f.b, some .y), (exactValue f.c, none)]

/-- The plain text shows the terms whose coefficients are not zero. -/
theorem exists_plainSum {f : LinearForm Float} (finite : f.Finite) (unknown : f.HasUnknown) :
    ∃ sum, f.plain = .ok (sum ++ " " ++ f.operator.symbol ++ " 0") ∧
      shownTerms sum = signedTerms f.coefficients := by
  have a := Double.valued_of_isFinite finite.a
  have b := Double.valued_of_isFinite finite.b
  have c := Double.valued_of_isFinite finite.c
  obtain ⟨x, writtenX, hx⟩ := exists_part a (exists_plainTerm true a .x)
  obtain ⟨y, writtenY, hy⟩ := exists_part b (exists_plainTerm (isZero f.a) b .y)
  obtain ⟨z, writtenZ, hz⟩ := exists_part c (exists_plainConstant c)
  refine ⟨x ++ y ++ z, (part_eq writtenX).trans ((part_eq writtenY).trans (part_eq writtenZ)), ?_⟩
  have zeroA : decide (exactValue f.a = 0) = isZero f.a := by
    rw [Bool.eq_iff_iff, decide_eq_true_eq, a.isZero]
  obtain ⟨t, ht, unknownTerm⟩ : ∃ t ∈ signedTerms [(exactValue f.a, some .x)] ++
      signedTerms [(exactValue f.b, some .y)], t.2 ≠ none := by
    rcases Bool.and_eq_false_iff.1 unknown with nonzero | nonzero
    · rw [signedTerms_cons fun zero => by rw [a.isZero.2 zero] at nonzero; cases nonzero]
      exact ⟨_, List.mem_cons_self, by simp⟩
    · rw [signedTerms_cons (r := exactValue f.b) fun zero => by
        rw [b.isZero.2 zero] at nonzero; cases nonzero]
      exact ⟨_, List.mem_append_right _ List.mem_cons_self, by simp⟩
  have front : SumText true (Text.blankless (x ++ y))
      (signedTerms [(exactValue f.a, some .x)] ++ signedTerms [(exactValue f.b, some .y)]) := by
    rw [Text.blankless_append]
    refine hx.append ?_
    rwa [Bool.true_and, isEmpty_signedTerms, zeroA]
  have parts : signedTerms f.coefficients = signedTerms [(exactValue f.a, some .x)] ++
      signedTerms [(exactValue f.b, some .y)] ++ signedTerms [(exactValue f.c, none)] := by
    rw [← signedTerms_append, ← signedTerms_append]
    rfl
  have text : SumText true (Text.blankless (x ++ y ++ z)) (signedTerms f.coefficients) := by
    rw [Text.blankless_append, parts]
    refine front.append ?_
    rwa [Bool.true_and, List.isEmpty_eq_false_iff.2 (List.ne_nil_of_mem ht)]
  refine text.shownTerms_eq fun zero => ?_
  -- A lone zero has no unknown in it.
  have lone : [(Sign.plus, none)] = signedTerms f.coefficients := by
    rw [← text.signedParts_eq, zero]
    decide
  have mem : t ∈ signedTerms f.coefficients := parts ▸ List.mem_append_left _ ht
  rw [← lone, List.mem_singleton] at mem
  exact unknownTerm (congrArg Prod.snd mem)

/-- The fraction of a coefficient is nearest to its value. -/
theorem coefficientFraction_eq {α : Type} [Exact α] (v : α) :
    coefficientFraction v = nearestFraction denominatorBound (exactValue v) := by
  unfold coefficientFraction exactValue
  cases (Exact.numeral v).value? with
  | error e =>
    show (0 : ℚ) = nearestFraction denominatorBound 0
    decide +kernel
  | ok r => rfl

/-- Of the fractions, those are not zero whose coefficients are larger than half of the smallest
one, and they have the same signs. -/
theorem signedTerms_nearestFraction (l : List (ℚ × Option Unknown)) :
    signedTerms (l.map fun t => (nearestFraction denominatorBound t.1, t.2)) =
      signedTerms (l.filter (leastShown < |·.1|)) := by
  induction l with
  | nil => rfl
  | cons t l ih =>
    obtain ⟨r, unknown⟩ := t
    obtain ⟨zero, neg⟩ := nearestFraction_sign r
    rw [List.map_cons]
    by_cases small : |r| ≤ leastShown
    · rw [signedTerms_zero (zero.2 small), ih, List.filter_cons_of_neg (by simpa using small)]
    · have large := not_le.1 small
      have nonzero : r ≠ 0 := fun none => by
        rw [none, abs_zero] at small
        exact small (by decide +kernel)
      have sign : nearestFraction denominatorBound r < 0 ↔ r < 0 := by
        rw [neg]
        refine ⟨fun low => low.trans (neg_neg_of_pos leastShown_pos), fun below => ?_⟩
        rw [abs_of_neg below] at large
        linarith
      rw [signedTerms_cons (mt zero.1 small), ih, List.filter_cons_of_pos (by simpa using large),
        signedTerms_cons nonzero]
      simp only [Sign.ofValue, sign]

theorem fractions_eq {α : Type} [Exact α] (f : LinearForm α) :
    f.fractions = f.coefficients.map fun t => (nearestFraction denominatorBound t.1, t.2) := by
  simp only [fractions, coefficients, coefficientFraction_eq, List.map_cons, List.map_nil]

/-- The texts of a form show its terms with their signs, all of them in the plain text, and in the
typeset text, in some order, those whose coefficients are larger than half of the smallest fraction.
The two texts show the same terms exactly if all coefficients are so large, or zero. -/
theorem renderings_agree_iff {s : Shape Float} {f : LinearForm Float} (read : ofShape? s = some f)
    (finite : f.Finite) :
    ∃ plainSum latexSum, f.plain = .ok (plainSum ++ " " ++ f.operator.symbol ++ " 0") ∧
      f.latex = latexSum ++ " " ++ latexSymbol f.operator ++ " 0" ∧
      shownTerms plainSum = signedTerms f.coefficients ∧
      (shownTerms latexSum).Perm (signedTerms (f.coefficients.filter (leastShown < |·.1|))) ∧
      ((shownTerms latexSum).Perm (shownTerms plainSum) ↔
        ∀ t ∈ f.coefficients, t.1 = 0 ∨ leastShown < |t.1|) := by
  obtain ⟨plainSum, plain, shownPlain⟩ := exists_plainSum finite (settled_of_ofShape? read).2.2
  obtain ⟨latexSum, latex, shownLatex⟩ := exists_latexSum f
  rw [fractions_eq, signedTerms_nearestFraction] at shownLatex
  refine ⟨plainSum, latexSum, plain, latex, shownPlain, shownLatex, ?_⟩
  rw [shownPlain]
  constructor
  · intro same
    have lengths := (shownLatex.symm.trans same).length_eq
    simpa using (signedTerms_filter _).1.1 lengths
  · intro large
    rwa [(signedTerms_filter _).2 (by simpa using large)] at shownLatex

/-- `-2x + 0.5y + 3 >= 0` is typeset with a fraction for the second coefficient. -/
theorem renderings_agree_of_half : ∃ (s : Shape Float) (f : LinearForm Float),
    ofShape? s = some f ∧ f.Finite ∧ f.plain = .ok "-2x + 0.5y + 3 >= 0" ∧
      ∃ plainSum latexSum, f.plain = .ok (plainSum ++ " " ++ f.operator.symbol ++ " 0") ∧
        f.latex = latexSum ++ " " ++ latexSymbol f.operator ++ " 0" ∧
        shownTerms plainSum = [(.minus, some .x), (.plus, some .y), (.plus, none)] ∧
        (shownTerms latexSum).Perm (shownTerms plainSum) := by
  have run : (ofShape? (.standard (-2.0) 0.5 3.0 .ge) : Option (LinearForm Float)).any
      (fun f => f.a.isFinite && f.b.isFinite && f.c.isFinite &&
        f.plain.toOption == some "-2x + 0.5y + 3 >= 0" &&
        signedTerms f.coefficients == [(.minus, some .x), (.plus, some .y), (.plus, none)] &&
        f.coefficients.all fun t => decide (leastShown < |t.1|)) = true := by decide +kernel
  obtain ⟨f, read, run⟩ := (Option.any_eq_true ..).1 run
  simp only [Bool.and_eq_true, beq_iff_eq, List.all_eq_true, decide_eq_true_eq] at run
  obtain ⟨⟨⟨⟨⟨a, b⟩, c⟩, text⟩, terms⟩, large⟩ := run
  have finite : f.Finite := ⟨a, b, c⟩
  obtain ⟨plainSum, latexSum, plain, latex, shown, -, agree⟩ := renderings_agree_iff read finite
  exact ⟨_, f, read, finite, ok_of_toOption text, plainSum, latexSum, plain, latex,
    shown.trans terms, agree.2 fun t ht => .inr (large t ht)⟩

/-- The only coefficient of `0.0000001x > 0` counts, but its fraction is zero. -/
theorem not_always_agree :
    ¬ ∀ (s : Shape Float) (f : LinearForm Float), ofShape? s = some f → f.Finite →
      ∀ plainSum latexSum : String, f.plain = .ok (plainSum ++ " " ++ f.operator.symbol ++ " 0") →
        f.latex = latexSum ++ " " ++ latexSymbol f.operator ++ " 0" →
        (shownTerms latexSum).Perm (shownTerms plainSum) := by
  intro always
  have run : (ofShape? (.single .x 0.0000001 0.0 .gt) : Option (LinearForm Float)).any
      (fun f => f.a.isFinite && f.b.isFinite && f.c.isFinite && f.operator == .gt &&
        f.plain.toOption == some "0.0000001x > 0" && f.latex == "0 > 0") = true := by
    decide +kernel
  obtain ⟨f, read, run⟩ := (Option.any_eq_true ..).1 run
  simp only [Bool.and_eq_true, beq_iff_eq] at run
  obtain ⟨⟨⟨⟨⟨a, b⟩, c⟩, operator⟩, plain⟩, latex⟩ := run
  have same := always _ f read ⟨a, b, c⟩ "0.0000001x" "0"
    (by rw [operator]; exact ok_of_toOption plain) (by rw [operator]; exact latex)
  exact absurd same.length_eq (by decide +kernel)

end LinearForm
end HalfPlane
