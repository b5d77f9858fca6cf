/-
Arithmetic in which nothing is rounded: the scalars of an ordered field.

Lines and forms are written over any scalars. Over an ordered field their literals, sums and
comparisons are those of the field, and the tests for zero and for the tolerance say what
their names say. Lengths are another matter, since not every field has square roots, so they
come with laws of their own (`EuclideanLength`); the real numbers have both.
-/
import Mathlib.Algebra.Order.Field.Basic
import Mathlib.Analysis.Real.Sqrt
import Mathlib.Tactic.Linarith
import Mathlib.Tactic.NormNum
import HalfPlane.Scalar

namespace HalfPlane
open Scalar

section Field
variable {K : Type} [Field K] [LinearOrder K]

instance (priority := low) Scalar.ofField : Scalar K where
  decideLT := inferInstance
  decideLE := inferInstance

@[simp] theorem Scalar.same_iff (x y : K) : same x y = true ↔ x = y := by
  rw [same, Bool.and_eq_true, decide_eq_true_eq, decide_eq_true_eq, le_antisymm_iff]

variable [IsStrictOrderedRing K]

@[simp] theorem decimal_zero : (0.0 : K) = 0 := by norm_num

@[simp] theorem decimal_one : (1.0 : K) = 1 := by norm_num

namespace Scalar

theorem ofScientific_eq (digits places : Nat) :
    (OfScientific.ofScientific digits true places : K) = digits / 10 ^ places := by
  have cast : (OfScientific.ofScientific digits true places : K) =
      (NNRat.divNat digits (10 ^ places) : K) := by
    rw [NNRatCast.ofScientific_eq_ite, if_pos rfl]
  rw [cast, NNRat.cast_divNat]
  push_cast
  rfl

omit [IsStrictOrderedRing K] in
theorem ofInt_eq (n : ℤ) : (ofInt n : K) = n := by
  have natural (k : ℕ) : (OfScientific.ofScientific k false 0 : K) = k := by
    rw [NNRatCast.ofScientific_eq_ite, if_neg Bool.false_ne_true, pow_zero, mul_one,
      NNRat.cast_natCast]
  cases n with
  | ofNat k => exact (natural k).trans (Int.cast_natCast k).symm
  | negSucc k =>
    rw [ofInt, natural, Int.cast_negSucc]

/-! ## The tests -/

theorem tolerance_eq : (tolerance : K) = 1 / 10 ^ 9 := by
  unfold tolerance
  norm_num

theorem tolerance_pos : 0 < (tolerance : K) := by
  rw [tolerance_eq]
  norm_num

theorem ne_zero_of_counts {v : K} (counts : tolerance ≤ |v|) : v ≠ 0 :=
  abs_pos.1 (tolerance_pos.trans_le counts)

theorem tolerance_le_one : (tolerance : K) ≤ 1 := by
  rw [tolerance_eq]
  norm_num

@[simp] theorem abs_eq (x : K) : Scalar.abs x = |x| := by
  unfold Scalar.abs
  rw [decimal_zero]
  split
  · next pos => exact (abs_of_pos pos).symm
  · next notPos => rw [zero_sub, abs_of_nonpos (not_lt.1 notPos)]

@[simp] theorem negligible_iff (x : K) : negligible x = true ↔ |x| < tolerance := by
  rw [negligible, abs_eq, decide_eq_true_eq]

@[simp] theorem isZero_iff_eq (x : K) : isZero x = true ↔ x = 0 := by
  rw [isZero, same_iff, decimal_zero]

omit [IsStrictOrderedRing K] in
@[simp] theorem atLeast_eq (low x : K) : atLeast low x = max low x := by
  unfold atLeast
  split
  · next above => exact (max_eq_right above.le).symm
  · next below => exact (max_eq_left (not_lt.1 below)).symm

omit [IsStrictOrderedRing K] in
@[simp] theorem atMost_eq (high x : K) : atMost high x = min high x := by
  unfold atMost
  split
  · next below => exact (min_eq_right below.le).symm
  · next above => exact (min_eq_left (not_lt.1 above)).symm

/-- Values that differ by less than the size of one of them have the same sign. -/
theorem pos_iff_of_abs_sub_lt {v w : K} (h : |v - w| < |v|) :
    (0 < v ↔ 0 < w) ∧ (v < 0 ↔ w < 0) := by
  rcases le_or_gt 0 v with nonneg | neg
  · rw [abs_of_nonneg nonneg, abs_lt] at h
    have pos : 0 < w := by linarith [h.2]
    have large : 0 < v := by linarith [h.1, h.2]
    exact ⟨iff_of_true large pos, iff_of_false nonneg.not_gt pos.le.not_gt⟩
  · rw [abs_of_neg neg, abs_lt] at h
    have small : w < 0 := by linarith [h.1]
    exact ⟨iff_of_false neg.le.not_gt small.le.not_gt, iff_of_true neg small⟩

end Scalar
end Field

/-! ## Lengths -/

/-- The hypotenuse of a right triangle, without rounding. -/
class EuclideanLength (K : Type) [Field K] [LinearOrder K] [Hypot K] : Prop where
  hypot_nonneg (x y : K) : 0 ≤ Hypot.hypot x y
  hypot_mul_self (x y : K) : Hypot.hypot x y * Hypot.hypot x y = x * x + y * y

section Length
variable {K : Type} [Field K] [LinearOrder K] [IsStrictOrderedRing K] [Hypot K] [EuclideanLength K]
open EuclideanLength

theorem hypot_eq_iff {x y l : K} (h : 0 ≤ l) : Hypot.hypot x y = l ↔ x * x + y * y = l * l := by
  rw [← hypot_mul_self x y]
  exact (mul_self_inj (hypot_nonneg x y) h).symm

theorem hypot_neg_neg (x y : K) : Hypot.hypot (-x) (-y) = Hypot.hypot x y := by
  rw [hypot_eq_iff (hypot_nonneg x y), hypot_mul_self, neg_mul_neg, neg_mul_neg]

theorem hypot_zero_right (x : K) : Hypot.hypot x 0 = |x| := by
  rw [hypot_eq_iff (abs_nonneg x), abs_mul_abs_self, mul_zero, add_zero]

theorem abs_left_le_hypot (x y : K) : |x| ≤ Hypot.hypot x y := by
  rw [← abs_of_nonneg (hypot_nonneg x y), abs_le_iff_mul_self_le, hypot_mul_self]
  exact le_add_of_nonneg_right (mul_self_nonneg y)

theorem abs_right_le_hypot (x y : K) : |y| ≤ Hypot.hypot x y := by
  rw [← abs_of_nonneg (hypot_nonneg x y), abs_le_iff_mul_self_le, hypot_mul_self]
  exact le_add_of_nonneg_left (mul_self_nonneg x)

theorem hypot_ne_zero {x y : K} (h : ¬ (x = 0 ∧ y = 0)) : Hypot.hypot x y ≠ 0 := by
  intro zero
  have squares : x * x + y * y = 0 := by rw [← hypot_mul_self, zero, zero_mul]
  exact h (mul_self_add_mul_self_eq_zero.1 squares)

end Length

noncomputable instance : Hypot ℝ := ⟨fun x y => √(x * x + y * y)⟩

noncomputable instance : EuclideanLength ℝ where
  hypot_nonneg _ _ := Real.sqrt_nonneg _
  hypot_mul_self x y := Real.mul_self_sqrt (add_nonneg (mul_self_nonneg x) (mul_self_nonneg y))

end HalfPlane
