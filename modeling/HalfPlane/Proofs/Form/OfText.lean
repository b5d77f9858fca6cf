/-
The form of a text says what the text says.

The form is read from the terms of the text without looking at their order, so texts with
the same terms on each side have the same form. A text with the sides exchanged has the
negated form, which counts as the same.
-/
import HalfPlane.Proofs.Form.Meaning

namespace HalfPlane.LinearForm
open Formula

section Text
variable {K : Type} [Field K] [LinearOrder K] [IsStrictOrderedRing K]

theorem ofText?_eq_collectedForm? {text : String} {f : Formula K} (read : ofText text = .ok f) :
    ofText? text = collectedForm? f := ofText?_eq_general read

/-- A text whose coefficients all count or vanish has a form, and the form holds of the same
points. Texts with the terms of a side in another order have the same form. Texts with the
sides exchanged have the negated form, which is no other inequality. -/
theorem ofText_means {text : String} {f : Formula K} (read : ofText text = .ok f)
    (compares : f.comparison ≠ .ne) (clear : f.Clear) :
    ∃ form : LinearForm K, ofText? text = some form ∧
      (∀ p, f.Holds p ↔ form.Holds p) ∧
      (∀ (text' : String) (f' : Formula K), ofText text' = .ok f' → f.Reordered f' →
        ofText? text' = some form) ∧
      ∀ (text' : String) (f' : Formula K), ofText text' = .ok f' → f.Exchanged f' →
        ofText? text' = some form.negated ∧
          ∀ (_ : Hypot K) (_ : EuclideanLength K), form.sameAs form.negated = .ok true := by
  obtain ⟨o, operator⟩ := Comparison.exists_operator compares
  have collects := clear.collectedForm? operator
  refine ⟨_, (ofText?_eq_collectedForm? read).trans collects, f.holds_iff operator, ?_, ?_⟩
  · intro text' f' read' reordered
    rw [ofText?_eq_collectedForm? read', reordered.collectedForm?, collects]
  · intro text' f' read' exchanged
    rw [ofText?_eq_collectedForm? read', exchanged.collectedForm? clear collects compares]
    exact ⟨rfl, fun _ _ => sameAs_negated clear.unknowns⟩

end Text

/-! ## A text, word by word -/

namespace Sample

def two : Literal := ⟨['2'], false, []⟩

def three : Literal := ⟨['3'], false, []⟩

def four : Literal := ⟨['4'], false, []⟩

/-- `2x + 3y - 4` -/
def sum : Summands :=
  ⟨none, .multiple two (by decide) false .x,
    [(.plus, .multiple three (by decide) false .y), (.minus, .constant four (by decide))]⟩

/-- `3y - 4 + 2x` -/
def reordered : Summands :=
  ⟨none, .multiple three (by decide) false .y,
    [(.minus, .constant four (by decide)), (.plus, .multiple two (by decide) false .x)]⟩

def single : Summands := ⟨none, .unknown .y, []⟩

theorem value_of_whole {l : Literal} {n : Nat} (places : l.places = [])
    (whole : Text.digitsValue l.whole = n) : (l.value : ℝ) = n := by
  rw [Literal.value_eq, places, List.append_nil, whole, List.length_nil, pow_zero, div_one]

theorem two_value : (two.value : ℝ) = 2 := value_of_whole rfl (by decide)

theorem three_value : (three.value : ℝ) = 3 := value_of_whole rfl (by decide)

theorem four_value : (four.value : ℝ) = 4 := value_of_whole rfl (by decide)

theorem sum_terms : (sum.terms : List (Term ℝ)) = [⟨some .x, 2⟩, ⟨some .y, 3⟩, ⟨none, -4⟩] := by
  simp [sum, Summands.terms, Summands.otherTerms, Atom.term, Sign.value, two_value, three_value,
    four_value]

theorem reordered_terms :
    (reordered.terms : List (Term ℝ)) = [⟨some .y, 3⟩, ⟨none, -4⟩, ⟨some .x, 2⟩] := by
  simp [reordered, Summands.terms, Summands.otherTerms, Atom.term, Sign.value, two_value,
    three_value, four_value]

theorem single_terms : (single.terms : List (Term ℝ)) = [⟨some .y, 1⟩] := by
  simp [single, Summands.terms, Summands.otherTerms, Atom.term, Sign.value]

def formula : Formula ℝ := ⟨[⟨some .x, 2⟩, ⟨some .y, 3⟩, ⟨none, -4⟩], .lt, [⟨some .y, 1⟩]⟩

theorem formula_holds (p : Point ℝ) : formula.Holds p ↔ 2 * p.x + 3 * p.y - 4 < p.y := by
  have left : sideValue p formula.left = 2 * p.x + 3 * p.y - 4 := by
    simp [formula, sideValue, Term.value]
    ring
  have right : sideValue p formula.right = p.y := by simp [formula, sideValue, Term.value]
  rw [Formula.Holds, left, right]
  rfl

theorem formula_collected :
    collected (some .x) formula = 2 ∧ collected (some .y) formula = 2 ∧
      collected none formula = -4 := by
  simp [collected_eq_totals, formula, Term.total, Term.part]
  norm_num

theorem formula_clear : formula.Clear where
  counted unknown := by
    obtain ⟨x, y, constant⟩ := formula_collected
    right
    refine Scalar.tolerance_le_one.trans ?_
    rcases unknown with _ | _ | _
    · rw [constant]; norm_num
    · rw [x]; norm_num
    · rw [y]; norm_num
  unknowns := by
    rw [formula_collected.1]
    norm_num

theorem ofText_sum : ofText "2x + 3y - 4 < y" = .ok formula := by
  rw [ofText_of_text (r := ⟨sum, .lt, single⟩) (by decide +kernel), Reading.formula, sum_terms,
    single_terms]
  rfl

theorem ofText_reordered :
    ofText "3y - 4 + 2x < y" =
      .ok (⟨[⟨some .y, 3⟩, ⟨none, -4⟩, ⟨some .x, 2⟩], .lt, [⟨some .y, 1⟩]⟩ : Formula ℝ) := by
  rw [ofText_of_text (r := ⟨reordered, .lt, single⟩) (by decide +kernel), Reading.formula,
    reordered_terms, single_terms]

theorem ofText_exchanged :
    ofText "y > 2x + 3y - 4" = .ok (⟨formula.right, .gt, formula.left⟩ : Formula ℝ) := by
  rw [ofText_of_text (r := ⟨single, .gt, sum⟩) (by decide +kernel), Reading.formula, sum_terms,
    single_terms]
  rfl

end Sample

theorem ofText_means_of_sum :
    ∃ form : LinearForm ℝ, ofText? "2x + 3y - 4 < y" = some form ∧
      (∀ p : Point ℝ, 2 * p.x + 3 * p.y - 4 < p.y ↔ form.Holds p) ∧
      ofText? "3y - 4 + 2x < y" = some form ∧
      ofText? "y > 2x + 3y - 4" = some form.negated ∧
      form.sameAs form.negated = .ok true := by
  obtain ⟨form, text, holds, reordered, exchanged⟩ :=
    ofText_means Sample.ofText_sum (by decide) Sample.formula_clear
  have left : Sample.formula.left.Perm ([⟨some .y, 3⟩, ⟨none, -4⟩] ++ [⟨some .x, 2⟩]) :=
    (List.perm_append_singleton _ _).symm
  obtain ⟨turned, same⟩ :=
    exchanged _ _ Sample.ofText_exchanged ⟨.refl _, rfl, .refl _⟩
  exact ⟨form, text, fun p => (Sample.formula_holds p).symm.trans (holds p),
    reordered _ _ Sample.ofText_reordered ⟨left, rfl, .refl _⟩, turned, same _ inferInstance⟩

end HalfPlane.LinearForm
