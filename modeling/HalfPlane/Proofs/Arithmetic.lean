/-
What a board asks of the arithmetic of its coordinates, and no more.

The laws say that the comparisons order the numbers, that what is no number compares
with nothing and stays none, and that a difference is as small as the opposite one. They
say nothing of how sums, products and quotients are rounded. `Proofs.Double.Laws` proves
them of doubles.

The use of them here is that no divisor is zero: a value that passed one of the tests
against the tolerance is none (`isZero_of_not_lt`, `isZero_of_counts`).
-/
import HalfPlane.View

namespace HalfPlane
open Scalar

/-- The laws of the arithmetic of a board. -/
class LawfulCoordinate (α : Type) [Coordinate α] : Prop where
  lt_irrefl (x : α) : ¬ x < x
  le_of_lt {x y : α} : x < y → x ≤ y
  lt_of_lt_of_le {x y z : α} : x < y → y ≤ z → x < z
  lt_of_le_of_lt {x y z : α} : x ≤ y → y < z → x < z
  /-- Only numbers compare. -/
  le_self_of_lt {x y : α} : x < y → x ≤ x ∧ y ≤ y
  /-- Any two numbers compare. -/
  le_of_not_lt {x y : α} : x ≤ x → y ≤ y → ¬ x < y → y ≤ x
  /-- A difference is a number only between numbers. -/
  le_self_of_sub {x y : α} : x - y ≤ x - y → x ≤ x ∧ y ≤ y
  /-- Only a number has an integer beside it. -/
  le_self_of_nearest {x : α} {n : Int} : nearest? x = .ok n → x ≤ x
  isZero_zero_sub {x : α} : isZero x = true → isZero (0.0 - x) = true
  negligible_add_zero (x : α) : negligible (x + 0.0) = negligible x
  negligible_sub_comm (x y : α) : negligible (x - y) = negligible (y - x)
  zero_lt_tolerance : (0.0 : α) < tolerance
  zero_lt_minZoom : (0.0 : α) < View.standardMinZoom
  minZoom_le_maxZoom : (View.standardMinZoom : α) ≤ View.standardMaxZoom

open LawfulCoordinate

namespace Scalar

theorem isZero_iff {α : Type} [Scalar α] {x : α} : isZero x = true ↔ x ≤ 0.0 ∧ 0.0 ≤ x := by
  simp [isZero, same]

variable {α : Type} [Coordinate α] [LawfulCoordinate α]

theorem isZero_zero : isZero (0.0 : α) = true := by
  have h : (0.0 : α) ≤ 0.0 := (le_self_of_lt zero_lt_tolerance).1
  exact isZero_iff.2 ⟨h, h⟩

theorem isZero_of_pos {x : α} (h : 0.0 < x) : isZero x = false :=
  Bool.eq_false_iff.2 fun hz => lt_irrefl _ (lt_of_lt_of_le h (isZero_iff.1 hz).1)

/-! ## The tolerance -/

theorem lt_tolerance_of_isZero {x : α} (h : isZero x = true) : x < tolerance :=
  lt_of_le_of_lt (isZero_iff.1 h).1 zero_lt_tolerance

theorem negligible_of_isZero {x : α} (h : isZero x = true) : negligible x = true := by
  have notPos : ¬ 0.0 < x := fun hx => lt_irrefl _ (lt_of_lt_of_le hx (isZero_iff.1 h).1)
  simp only [negligible, abs, notPos, if_false, decide_eq_true_eq]
  exact lt_tolerance_of_isZero (isZero_zero_sub h)

theorem tolerance_le_abs {x : α} (number : abs x ≤ abs x) (h : negligible x = false) :
    tolerance ≤ abs x := by
  refine le_of_not_lt number (le_self_of_lt zero_lt_tolerance).2 ?_
  simpa [negligible] using h

/-! ## Divisors -/

theorem isZero_of_tolerance_le_abs {x : α} (h : tolerance ≤ abs x) : isZero x = false := by
  refine Bool.eq_false_iff.2 fun hz => ?_
  have small : abs x < tolerance := by simpa [negligible] using negligible_of_isZero hz
  exact lt_irrefl _ (lt_of_lt_of_le small h)

/-- A length that is not below the tolerance is not zero, even if it is no number. -/
theorem isZero_of_not_lt {x : α} (h : ¬ x < tolerance) : isZero x = false :=
  Bool.eq_false_iff.2 fun hz => h (lt_tolerance_of_isZero hz)

/-- Nor is a value that is not negligible. -/
theorem isZero_of_counts {x : α} (h : negligible x = false) : isZero x = false := by
  refine Bool.eq_false_iff.2 fun hz => ?_
  rw [negligible_of_isZero hz] at h
  cases h

end Scalar
end HalfPlane
