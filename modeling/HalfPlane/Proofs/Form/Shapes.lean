/-
The form of a formula, whichever shape it is met in.

A shape keeps the coefficients of a few terms as they stand, and the general form adds up all
the terms: it starts from zero, multiplies by one or minus one, and takes the zero on the other
side away. Nothing of that changes more than the sign of a zero (`LawfulUnits`), which settling
takes away in any case (`settled_congr`). So every shape that fits a formula has the form of the
formula.
-/
import HalfPlane.Form.Canonical

namespace HalfPlane
open Scalar
open Formula (Unknown Comparison)

/-! ## One and zero -/

/-- Equal, or zeros of whatever signs. -/
def Scalar.EqualOrZero {α : Type} [Scalar α] (x y : α) : Prop :=
  x = y ∨ isZero x = true ∧ isZero y = true

/-- The laws of one and zero: a factor one changes nothing, a factor minus one changes the sign,
and adding a zero changes the sign of a zero at most. -/
class LawfulUnits (α : Type) [Scalar α] : Prop where
  one_mul (x : α) : 1.0 * x = x
  neg_one_mul (x : α) : (-1.0) * x = -x
  zero_add (x : α) : EqualOrZero (0.0 + x) x
  add_zero (x : α) {z : α} : isZero z = true → EqualOrZero (x + z) x
  isZero_zero : isZero (0.0 : α) = true
  isZero_neg {x : α} : isZero x = true → isZero (-x) = true
  negligible_of_isZero {x : α} : isZero x = true → negligible x = true
  eq_one_of_same {x : α} : same x 1.0 = true → x = 1.0

variable {α : Type} [Scalar α]

theorem Scalar.EqualOrZero.refl (x : α) : EqualOrZero x x := .inl rfl

theorem Scalar.EqualOrZero.trans {x y z : α} (h : EqualOrZero x y) (h' : EqualOrZero y z) :
    EqualOrZero x z := by
  rcases h with rfl | ⟨hx, hy⟩
  · exact h'
  · rcases h' with rfl | ⟨-, hz⟩
    · exact .inr ⟨hx, hy⟩
    · exact .inr ⟨hx, hz⟩

namespace Shape

theorem exists_of_isZeroSide {side : List (Term α)} (h : isZeroSide side = true) :
    ∃ z, side = [⟨none, z⟩] ∧ isZero z = true := by
  unfold isZeroSide at h
  split at h
  · next z => exact ⟨z, rfl, h⟩
  · cases h

variable [LawfulUnits α]

theorem eq_of_isBareY {side : List (Term α)} (h : isBareY side = true) :
    side = [⟨some .y, 1.0⟩] := by
  unfold isBareY at h
  split at h
  · rw [LawfulUnits.eq_one_of_same h]
  · cases h

end Shape

namespace LinearForm
open Shape
variable [LawfulUnits α]

/-! ## Settled sums -/

theorem settled_congr {x y : α} (h : EqualOrZero x y) : settled x = settled y := by
  rcases h with rfl | ⟨hx, hy⟩
  · rfl
  · rw [settled, settled, if_pos (LawfulUnits.negligible_of_isZero hx),
      if_pos (LawfulUnits.negligible_of_isZero hy)]

/-- A term that a sum starts with. -/
theorem first_added (v : α) : EqualOrZero (0.0 + 1.0 * v) v := by
  rw [LawfulUnits.one_mul]
  exact LawfulUnits.zero_add v

/-- A term that a sum starts with, from the other side. -/
theorem first_taken (v : α) : EqualOrZero (0.0 + (-1.0) * v) (-v) := by
  rw [LawfulUnits.neg_one_mul]
  exact LawfulUnits.zero_add (-v)

theorem zero_taken : EqualOrZero (0.0 : α) (-0.0) :=
  .inr ⟨LawfulUnits.isZero_zero, LawfulUnits.isZero_neg LawfulUnits.isZero_zero⟩

/-- The zero of the other side adds nothing to what the left side has. -/
theorem collected_of_isZeroSide {r : Formula α} (h : isZeroSide r.right = true)
    (unknown : Option Unknown) :
    EqualOrZero (collected unknown r) (collect unknown 1.0 0.0 r.left) := by
  obtain ⟨z, right, zero⟩ := exists_of_isZeroSide h
  unfold collected
  rw [right]
  cases unknown with
  | none =>
    show EqualOrZero (collect none 1.0 0.0 r.left + (-1.0) * z) _
    rw [LawfulUnits.neg_one_mul]
    exact LawfulUnits.add_zero _ (LawfulUnits.isZero_neg zero)
  | some u => exact .refl _

/-- Coefficients that agree with the collected ones give the form of the formula. -/
theorem ofCoefficients?_eq_general {r : Formula α} {a b c : α}
    (first : EqualOrZero (collected (some .x) r) a) (second : EqualOrZero (collected (some .y) r) b)
    (constant : EqualOrZero (collected none r) c) :
    ofCoefficients? a b c r.comparison = ofShape? (.general r) := by
  simp only [ofShape?, ofCoefficients?, settled_congr first, settled_congr second,
    settled_congr constant]

/-! ## The shapes -/

theorem ofShape?_standard? {r : Formula α} {s : Shape α} (h : standard? r = some s) :
    ofShape? s = ofShape? (.general r) := by
  unfold standard? at h
  split at h
  · next zero =>
    have sums := collected_of_isZeroSide zero
    split at h
    · next a b left =>
      cases h
      rw [left] at sums
      exact ofCoefficients?_eq_general ((sums _).trans (first_added a))
        ((sums _).trans (first_added b)) (sums none)
    · next a b c left =>
      cases h
      rw [left] at sums
      exact ofCoefficients?_eq_general ((sums _).trans (first_added a))
        ((sums _).trans (first_added b)) ((sums _).trans (first_added c))
    · cases h
  · cases h

theorem ofShape?_single? {r : Formula α} {s : Shape α} (h : single? r = some s) :
    ofShape? s = ofShape? (.general r) := by
  unfold single? at h
  split at h
  · next zero =>
    have sums := collected_of_isZeroSide zero
    split at h
    · next u k left =>
      cases h
      rw [left] at sums
      cases u
      · exact ofCoefficients?_eq_general ((sums _).trans (first_added k)) (sums (some .y))
          (sums none)
      · exact ofCoefficients?_eq_general (sums (some .x)) ((sums _).trans (first_added k))
          (sums none)
    · next u k c left =>
      cases h
      rw [left] at sums
      cases u
      · exact ofCoefficients?_eq_general ((sums _).trans (first_added k)) (sums (some .y))
          ((sums _).trans (first_added c))
      · exact ofCoefficients?_eq_general (sums (some .x)) ((sums _).trans (first_added k))
          ((sums _).trans (first_added c))
    · cases h
  · cases h

theorem ofShape?_slope? {r : Formula α} {s : Shape α} (h : slope? r = some s) :
    ofShape? s = ofShape? (.general r) := by
  obtain ⟨left, comparison, right⟩ := r
  unfold slope? at h
  split at h
  · next bare =>
    obtain ⟨equation, bare⟩ := bare
    obtain rfl : left = [⟨some .y, 1.0⟩] := eq_of_isBareY bare
    obtain rfl : comparison = .eq := equation
    dsimp only at h
    split at h
    · next m =>
      cases h
      exact ofCoefficients?_eq_general (r := ⟨_, .eq, [⟨some .x, m⟩]⟩) (first_taken m)
        (first_added 1.0) zero_taken
    · next m k =>
      cases h
      exact ofCoefficients?_eq_general (r := ⟨_, .eq, [⟨some .x, m⟩, ⟨none, k⟩]⟩) (first_taken m)
        (first_added 1.0) (first_taken k)
    · next k =>
      cases h
      exact ofCoefficients?_eq_general (r := ⟨_, .eq, [⟨none, k⟩]⟩) zero_taken (first_added 1.0)
        (first_taken k)
    · cases h
  · cases h

/-- The form of a formula is that of the first shape that fits it. -/
theorem ofShape?_ofFormula (r : Formula α) : ofShape? (ofFormula r) = ofShape? (.general r) := by
  unfold ofFormula
  cases standard : standard? r with
  | some s => exact ofShape?_standard? standard
  | none =>
    cases single : single? r with
    | some s => exact ofShape?_single? single
    | none =>
      cases slope : slope? r with
      | some s => exact ofShape?_slope? slope
      | none => rfl

/-- And so is that of a text that spells the formula out. -/
theorem ofText?_eq_general {text : String} {r : Formula α} (read : Formula.ofText text = .ok r) :
    ofText? text = ofShape? (.general r) := by
  have shape : Shape.ofText text = .ok (ofFormula r) := by
    rw [Shape.ofText, read]
    rfl
  simp only [ofText?, shape, ofShape?_ofFormula]

end LinearForm
end HalfPlane
