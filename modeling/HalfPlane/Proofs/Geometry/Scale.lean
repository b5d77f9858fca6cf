/-
Judging a point by a form and by its multiples.

A form judges a point by its value there: below the tolerance the point counts as on the line,
and above it the sign decides (`satisfies_iff`). A multiple says the same of every point and its
value is a multiple of the value, but the tolerance stays what it is. So whether a point counts
as on the line depends on the multiple, and except for the opposite one every multiple judges
some point differently (`judged_alike_iff`), although it counts as the same inequality.
-/
import Mathlib.Tactic.LinearCombination
import HalfPlane.Proofs.Form.Same
import HalfPlane.Proofs.Geometry.Sides

namespace HalfPlane
open Scalar EuclideanLength

section Field
variable {K : Type} [Field K] [LinearOrder K]

theorem Operator.holds_iff_sense [IsStrictOrderedRing K] {o : Operator} {v : K} (off : v ≠ 0) :
    o.Holds v ↔ 0 < o.sense * v := by
  cases o
  case eq => simp [Holds, sense, off]
  case le => simp [Holds, sense, le_iff_lt_or_eq, off]
  case ge => simp [Holds, sense, le_iff_lt_or_eq, off.symm]
  all_goals simp [Holds, sense]

namespace LinearForm

theorem evaluate_times (k : K) (f : LinearForm K) (p : Point K) :
    (f.times k).evaluate p = k * f.evaluate p := by
  simp only [evaluate, times]
  ring

theorem strict_times (k : K) (f : LinearForm K) :
    (f.times k).operator.strict = f.operator.strict := by
  unfold times
  dsimp only
  split
  · exact Operator.strict_reversed _
  · rfl

variable [IsStrictOrderedRing K] {f : LinearForm K} {k : K}

/-- A multiple holds of the same points. -/
theorem holds_times (hk : k ≠ 0) (p : Point K) : (f.times k).Holds p ↔ f.Holds p := by
  have positive {k : K} (hk : 0 < k) : (f.times k).Holds p ↔ f.Holds p := by
    have operator : (f.times k).operator = f.operator := if_neg hk.le.not_gt
    unfold Holds
    rw [operator, evaluate_times]
    refine Operator.holds_congr (mul_pos_iff_of_pos_left hk) ?_ _
    rw [← neg_pos, ← mul_neg, mul_pos_iff_of_pos_left hk, neg_pos]
  rcases lt_or_gt_of_ne hk with negative | pos
  · rw [times_eq_negated negative, holds_negated, positive (neg_pos.2 negative)]
  · exact positive pos

/-! ## One point -/

/-- Within the tolerance a point is judged by whether the line belongs to the solutions, and
further away by what the form says of it. -/
theorem satisfies_iff (f : LinearForm K) (p : Point K) :
    f.satisfies p = true ↔
      if |f.evaluate p| < tolerance then f.operator.strict = false else f.Holds p := by
  split
  · next noise =>
    have solves : f.satisfies p = _ :=
      satisfies_of_negligible f.operator ((negligible_iff _).2 noise)
    rw [solves, Bool.not_eq_true']
  · next counts =>
    have far := not_lt.1 counts
    have off : f.evaluate p ≠ 0 := ne_zero_of_counts far
    have solves : f.satisfies p = _ := satisfies_of_counts f.operator far
    rw [solves, decide_eq_true_eq, Holds, Operator.holds_iff_sense off]

/-- A form and a multiple judge a point alike if it counts as on the line for both or for neither,
or if the forms say of it what is said of the line. -/
theorem satisfies_times_iff (hk : k ≠ 0) (p : Point K) :
    (f.times k).satisfies p = f.satisfies p ↔
      (|f.evaluate p| < tolerance ↔ |k| * |f.evaluate p| < tolerance) ∨
        (f.Holds p ↔ f.operator.strict = false) := by
  rw [Bool.eq_iff_iff, satisfies_iff, satisfies_iff, evaluate_times, abs_mul, strict_times,
    holds_times hk]
  by_cases here : |f.evaluate p| < tolerance <;>
    by_cases there : |k| * |f.evaluate p| < tolerance <;> simp only [here, there, if_true, if_false]
  · simp
  · simp
  · simpa using iff_comm
  · simp

/-! ## All points -/

/-- A form with a line takes every value. -/
theorem exists_evaluate (line : ¬ (f.a = 0 ∧ f.b = 0)) (v : K) :
    ∃ p, f.evaluate p = v := by
  have squares : f.a * f.a + f.b * f.b ≠ 0 :=
    fun zero => line (mul_self_add_mul_self_eq_zero.1 zero)
  refine ⟨⟨f.a * ((v - f.c) / (f.a * f.a + f.b * f.b)),
    f.b * ((v - f.c) / (f.a * f.a + f.b * f.b))⟩, ?_⟩
  simp only [evaluate]
  linear_combination div_mul_cancel₀ (v - f.c) squares

end LinearForm

/-- Of every size there is a value of which an operator does not say what it says of zero. -/
theorem Operator.exists_unlike_zero [IsStrictOrderedRing K] (o : Operator) {size : K}
    (hs : 0 < size) : ∃ v, |v| = size ∧ ¬ (o.Holds v ↔ o.strict = false) := by
  have positive := abs_of_pos hs
  have negative : |-size| = size := by rw [abs_neg, positive]
  have below : -size < 0 := neg_neg_of_pos hs
  cases o
  · exact ⟨-size, negative, by simp [Holds, strict, hs]⟩
  · exact ⟨size, positive, by simp [Holds, strict, hs]⟩
  · exact ⟨size, positive, by simp [Holds, strict, hs]⟩
  · exact ⟨-size, negative, by simp [Holds, strict, hs]⟩
  · exact ⟨size, positive, by simp [Holds, strict, hs.ne']⟩

/-- A factor other than one and minus one takes some size across the tolerance. -/
theorem exists_crossing_size [IsStrictOrderedRing K] {factor : K} (pos : 0 < factor)
    (other : factor ≠ 1) :
    ∃ size : K, 0 < size ∧ ¬ (size < tolerance ↔ factor * size < tolerance) := by
  have small := tolerance_pos (K := K)
  rcases lt_or_gt_of_ne other with shrinks | grows
  · refine ⟨tolerance, small, fun same => lt_irrefl _ (same.2 ?_)⟩
    exact mul_lt_of_lt_one_left small shrinks
  · refine ⟨tolerance / factor, div_pos small pos, fun same => lt_irrefl (tolerance : K) ?_⟩
    have across := same.1 (div_lt_self small grows)
    rwa [mul_div_cancel₀ _ pos.ne'] at across

namespace LinearForm
variable [IsStrictOrderedRing K] {f : LinearForm K} {k : K}

/-- A form and a multiple judge a point alike exactly if it counts as on the line for both or for
neither, or if the forms say of it what is said of the line. So all points are judged alike by
the form itself and the opposite one only. -/
theorem judged_alike_iff (line : ¬ (f.a = 0 ∧ f.b = 0)) (hk : k ≠ 0) :
    (∀ p, (f.times k).satisfies p = f.satisfies p ↔
      (|f.evaluate p| < tolerance ↔ |k| * |f.evaluate p| < tolerance) ∨
        (f.Holds p ↔ f.operator.strict = false)) ∧
    ((∀ p, (f.times k).satisfies p = f.satisfies p) ↔ |k| = 1) := by
  refine ⟨fun p => satisfies_times_iff hk p, fun alike => ?_, fun unit p => ?_⟩
  · by_contra other
    obtain ⟨size, pos, crosses⟩ := exists_crossing_size (abs_pos.2 hk) other
    obtain ⟨v, rfl, unlike⟩ := f.operator.exists_unlike_zero pos
    obtain ⟨p, rfl⟩ := exists_evaluate line v
    rcases (satisfies_times_iff hk p).1 (alike p) with same | same
    · exact crosses same
    · exact unlike same
  · refine (satisfies_times_iff hk p).2 (.inl ?_)
    rw [unit, one_mul]

end LinearForm
end Field

namespace LinearForm

theorem faint_line : ¬ (faint.a = 0 ∧ faint.b = 0) := fun zero => tolerance_pos.ne' zero.2

theorem faint_evaluate (y : ℝ) : faint.evaluate ⟨0, y⟩ = tolerance * y := by
  simp only [evaluate, faint]
  ring

/-- The faint form, multiplied until its coefficient is one. -/
theorem faint_times : faint.times tolerance⁻¹ = ⟨0, 1, 0, .gt⟩ := by
  have positive : ¬ (tolerance⁻¹ : ℝ) < 0 := (inv_pos.2 tolerance_pos).le.not_gt
  simp only [times, faint, if_neg positive, mul_zero, inv_mul_cancel₀ (tolerance_pos (K := ℝ)).ne']

/-- Both forms are read from formulas and count as the same, and half a unit above their line they
judge differently. -/
theorem not_always_judged_alike :
    ofShape? (.single .y tolerance 0 .gt) = some faint ∧
      ofShape? (.single .y 1 0 .gt) = some (faint.times tolerance⁻¹) ∧
      faint.sameAs (faint.times tolerance⁻¹) = .ok true ∧
      faint.satisfies ⟨0, 0.5⟩ = false ∧ (faint.times tolerance⁻¹).satisfies ⟨0, 0.5⟩ = true := by
  have positive := tolerance_pos (K := ℝ)
  have unit := unitForm_eq (isZero_norm faint_line)
  have multiple := unitForm_times faint_line (inv_pos.2 positive).ne'
  refine ⟨ofShape?_faint, ?_, sameAs_of_unitForm unit (multiple.trans unit), ?_, ?_⟩
  · have counts : Counted (1 : ℝ) := .inr (by rw [abs_one]; exact tolerance_le_one)
    rw [faint_times]
    simp only [ofShape?, decimal_zero]
    exact ofCoefficients?_eq (.inl rfl) counts (.inl rfl) (by simp) rfl
  · have here : |faint.evaluate ⟨0, 0.5⟩| < tolerance := by
      rw [faint_evaluate, abs_of_pos (by positivity)]
      linarith
    rw [Bool.eq_false_iff, ne_eq, satisfies_iff, if_pos here]
    simp [faint, Operator.strict]
  · have value : (faint.times tolerance⁻¹).evaluate ⟨0, 0.5⟩ = 0.5 := by
      rw [evaluate_times, faint_evaluate, inv_mul_cancel_left₀ positive.ne']
    have away : ¬ |(0.5 : ℝ)| < tolerance := by
      rw [tolerance_eq, abs_of_pos (by norm_num)]
      norm_num
    rw [satisfies_iff, value, if_neg away, Holds, value, faint_times]
    norm_num [Operator.Holds]

/-- One unit above the line the two judge alike, though not everywhere. -/
theorem judged_alike_of_faint :
    (faint.times tolerance⁻¹).satisfies ⟨0, 1⟩ = faint.satisfies ⟨0, 1⟩ ∧
      ¬ ∀ p, (faint.times tolerance⁻¹).satisfies p = faint.satisfies p := by
  have positive := tolerance_pos (K := ℝ)
  have factor : |(tolerance⁻¹ : ℝ)| = tolerance⁻¹ := abs_of_pos (inv_pos.2 positive)
  have size : |faint.evaluate ⟨0, 1⟩| = tolerance := by
    rw [faint_evaluate, mul_one, abs_of_pos positive]
  obtain ⟨point, all⟩ := judged_alike_iff faint_line (inv_pos.2 positive).ne'
  constructor
  · refine (point _).2 (.inl (iff_of_false ?_ ?_))
    · exact fun here => here.ne size
    · rw [size, factor, inv_mul_cancel₀ positive.ne']
      exact not_lt.2 tolerance_le_one
  · rw [all, factor, tolerance_eq]
    norm_num

end LinearForm
end HalfPlane
