/-
Unit forms.

The unit form is the form over the length of its normal, turned so that the first
coefficient that counts is not negative (`unitForm_eq`). In exact arithmetic turning a form
and turning the negated one give the same (`turned_negated`), so the two have the same unit
form.
-/
import HalfPlane.Proofs.Exact
import HalfPlane.Geometry.Line

namespace HalfPlane.LinearForm
open Scalar EuclideanLength

section Any
variable {α : Type} [Scalar α]

/-- The form with everything on the other side. -/
def negated (f : LinearForm α) : LinearForm α := ⟨-f.a, -f.b, -f.c, f.operator.reversed⟩

/-- The first coefficient of an unknown that counts. -/
def lead (f : LinearForm α) : α := if tolerance ≤ Scalar.abs f.a then f.a else f.b

/-- The form or the negated one, whichever does not have a negative lead. -/
def turned (f : LinearForm α) : LinearForm α := if f.lead < 0.0 then f.negated else f

theorem turned_cases (f : LinearForm α) : f.turned = f.negated ∨ f.turned = f := by
  unfold turned
  split
  · exact .inl rfl
  · exact .inr rfl

variable [Hypot α]

/-- The form over the length of its normal. -/
def scaled (f : LinearForm α) : LinearForm α :=
  let norm := Hypot.hypot f.a f.b
  ⟨f.a / norm, f.b / norm, f.c / norm, f.operator⟩

theorem unitForm_eq {f : LinearForm α} (norm : isZero (Hypot.hypot f.a f.b) = false) :
    f.unitForm = .ok f.scaled.turned := by
  simp only [unitForm, quotient, norm]
  show (if _ then _ else _) = _
  unfold turned
  rw [apply_ite Except.ok]
  rfl

end Any

section Exact
variable {K : Type} [Field K] [LinearOrder K]

theorem negated_negated (f : LinearForm K) : f.negated.negated = f := by
  obtain ⟨a, b, c, o⟩ := f
  simp only [negated, neg_neg]
  cases o <;> rfl

variable [IsStrictOrderedRing K]

theorem lead_negated (f : LinearForm K) : f.negated.lead = -f.lead := by
  simp only [lead, negated, Scalar.abs_eq, abs_neg]
  split <;> rfl

theorem turned_negated {f : LinearForm K} (h : f.lead ≠ 0) : f.negated.turned = f.turned := by
  simp only [turned, lead_negated, decimal_zero, negated_negated]
  rcases lt_or_gt_of_ne h with negative | positive
  · rw [if_neg (by linarith), if_pos negative]
  · rw [if_pos (by linarith), if_neg (not_lt.2 positive.le)]

variable [Hypot K]

theorem sameAs_of_unitForm {f g u : LinearForm K} (hf : f.unitForm = .ok u)
    (hg : g.unitForm = .ok u) : f.sameAs g = .ok true := by
  have close : ∀ v : K, negligible (v - v) = true := fun v => by
    rw [negligible_iff, sub_self, abs_zero]
    exact tolerance_pos
  rw [sameAs, hf, hg]
  show Except.ok _ = _
  simp only [close, decide_true, Bool.and_self]

variable [EuclideanLength K] {f : LinearForm K}

theorem isZero_norm (h : ¬ (f.a = 0 ∧ f.b = 0)) : isZero (Hypot.hypot f.a f.b) = false :=
  Bool.eq_false_iff.2 fun zero => hypot_ne_zero h ((isZero_iff_eq _).1 zero)

theorem lead_scaled (h : ¬ (f.a = 0 ∧ f.b = 0)) : f.scaled.lead ≠ 0 := by
  have norm : Hypot.hypot f.a f.b ≠ 0 := hypot_ne_zero h
  unfold lead
  rw [Scalar.abs_eq]
  split
  · next counts =>
    intro zero
    rw [zero, abs_zero] at counts
    exact absurd tolerance_pos (not_lt.2 counts)
  · next small =>
    -- The coefficients of a unit normal are not both small.
    intro zero
    have b : f.b = 0 := (div_eq_zero_iff.1 zero).resolve_right norm
    have unit : |f.scaled.a| = 1 := by
      have a : |f.a| ≠ 0 := abs_ne_zero.2 fun a => h ⟨a, b⟩
      show |f.a / Hypot.hypot f.a f.b| = 1
      rw [b, hypot_zero_right, abs_div, abs_abs, div_self a]
    exact small (unit ▸ tolerance_le_one)

theorem unitForm_negated (h : ¬ (f.a = 0 ∧ f.b = 0)) : f.negated.unitForm = f.unitForm := by
  have scaled : f.negated.scaled = f.scaled.negated := by
    simp only [LinearForm.scaled, negated, hypot_neg_neg, neg_div]
  have unknowns : ¬ (f.negated.a = 0 ∧ f.negated.b = 0) := by
    rwa [negated, neg_eq_zero, neg_eq_zero]
  rw [unitForm_eq (isZero_norm h), unitForm_eq (isZero_norm unknowns), scaled,
    turned_negated (lead_scaled h)]

/-- A form and the negated one count as the same. -/
theorem sameAs_negated (h : ¬ (f.a = 0 ∧ f.b = 0)) : f.sameAs f.negated = .ok true :=
  sameAs_of_unitForm (unitForm_eq (isZero_norm h))
    ((unitForm_negated h).trans (unitForm_eq (isZero_norm h)))

end Exact
end HalfPlane.LinearForm
