/-
Which side of its line a form asks for.

A form that was read has a line in exact arithmetic: the middle is on it, and along the unit
normal the value grows evenly, by so much that it counts (`Poised`). The sign of that growth
and what the operator wants single out one side, the right one. Marks, shading and claims each
find their side in a way of their own, and all of them go by it.
-/
import Mathlib.Algebra.Order.Field.Basic
import Mathlib.Tactic.FieldSimp
import Mathlib.Tactic.Linarith
import Mathlib.Tactic.LinearCombination
import Mathlib.Tactic.Ring
import HalfPlane.Proofs.Form.Meaning
import HalfPlane.Proofs.Geometry.Lines

namespace HalfPlane
open Scalar EuclideanLength

section Signs
variable {K : Type} [Field K] [LinearOrder K]

/-! ## Signs -/

/-- The sign of the values that an operator wants. -/
def Operator.sense : Operator → K
  | .lt | .le => -1
  | .gt | .ge => 1
  | .eq => 0

theorem Operator.sense_reversed (o : Operator) : (o.reversed.sense : K) = -o.sense := by
  cases o <;> simp [Operator.reversed, sense]

theorem Operator.sense_mul_self {o : Operator} (region : o ≠ .eq) :
    (o.sense * o.sense : K) = 1 := by
  cases o <;> simp [sense] at region ⊢

theorem Operator.strict_reversed (o : Operator) : o.reversed.strict = o.strict := by
  cases o <;> rfl

/-- The side along a direction in which something grows, or against it if it shrinks. -/
def Side.towards (growth : K) : Side := if 0 < growth then .regionB else .regionA

/-- By how much the value of a form grows along a direction. -/
def LinearForm.growth (f : LinearForm K) (n : Direction K) : K := f.a * n.dx + f.b * n.dy

/-- Along a unit normal the value grows by the length of the form's own normal. -/
theorem LinearForm.growth_mul_self {f : LinearForm K} {n : Direction K}
    (unit : n.dx * n.dx + n.dy * n.dy = 1) (normal : f.a * n.dy = f.b * n.dx) :
    f.growth n * f.growth n = f.a * f.a + f.b * f.b := by
  have across : f.a * n.dy - f.b * n.dx = 0 := sub_eq_zero.2 normal
  calc f.growth n * f.growth n
      = (f.a * f.a + f.b * f.b) * (n.dx * n.dx + n.dy * n.dy) -
          (f.a * n.dy - f.b * n.dx) * (f.a * n.dy - f.b * n.dx) := by
        unfold growth
        ring
    _ = f.a * f.a + f.b * f.b := by
        rw [unit, across, mul_one, mul_zero, sub_zero]

variable [IsStrictOrderedRing K]

@[simp] theorem Side.sign_regionA : (Side.regionA.sign : K) = -1 := by
  rw [sign, decimal_one]

@[simp] theorem Side.sign_regionB : (Side.regionB.sign : K) = 1 := decimal_one

theorem Side.abs_sign (side : Side) : |(side.sign : K)| = 1 := by
  cases side <;> simp

theorem Side.sign_ne_zero (side : Side) : (side.sign : K) ≠ 0 := by
  cases side <;> simp

theorem Side.sign_mul_pos_iff {growth : K} (h : growth ≠ 0) {side : Side} :
    0 < side.sign * growth ↔ side = towards growth := by
  unfold towards
  rcases lt_or_gt_of_ne h with shrinks | grows
  · rw [if_neg (not_lt.2 shrinks.le)]
    cases side
    · simp [shrinks]
    · simp [shrinks.le]
  · rw [if_pos grows]
    cases side
    · simp [grows.le]
    · simp [grows]

theorem Side.towards_mul_pos {factor : K} (h : 0 < factor) (growth : K) :
    towards (growth * factor) = towards growth := by
  simp only [towards, mul_pos_iff_of_pos_right h]

/-- A value has the sign of the growth towards a side if it has the sign the operator wants, as
long as that is the side the operator wants, and else if it has the opposite sign. -/
theorem Operator.claim_iff {o : Operator} (region : o ≠ .eq) {growth : K}
    (h : o.sense * growth ≠ 0) (side : Side) (v : K) :
    0 < v * (side.sign * growth) ↔
      0 < (if side = .towards (o.sense * growth) then o else o.reversed).sense * v := by
  have squares := sense_mul_self (K := K) region
  have split : v * (side.sign * growth) = o.sense * v * (side.sign * (o.sense * growth)) := by
    linear_combination (-(v * side.sign * growth)) * squares
  rw [split]
  by_cases wanted : side = .towards (o.sense * growth)
  · rw [if_pos wanted]
    exact mul_pos_iff_of_pos_right ((Side.sign_mul_pos_iff h).2 wanted)
  · have negative : 0 < -(side.sign * (o.sense * growth)) := by
      rcases lt_or_gt_of_ne (mul_ne_zero side.sign_ne_zero h) with negative | positive
      · exact neg_pos.2 negative
      · exact absurd ((Side.sign_mul_pos_iff h).1 positive) wanted
    rw [if_neg wanted, sense_reversed, neg_mul, ← neg_mul_neg, mul_pos_iff_of_pos_right negative]

namespace LinearForm
variable {f : LinearForm K} {p : Point K} (o : Operator)

omit [IsStrictOrderedRing K] in
theorem satisfies_of_negligible (noise : negligible (f.evaluate p) = true) :
    ({ f with operator := o } : LinearForm K).satisfies p = !o.strict :=
  if_pos noise

/-- Off the line a point solves a form if its value has the sign the operator wants. -/
theorem satisfies_of_counts (counts : tolerance ≤ |f.evaluate p|) :
    ({ f with operator := o } : LinearForm K).satisfies p =
      decide (0 < o.sense * f.evaluate p) := by
  have off : ¬ negligible (f.evaluate p) = true :=
    fun noise => not_lt.2 counts ((negligible_iff _).1 noise)
  refine (if_neg off).trans ?_
  cases o <;> simp [Operator.lessType, Operator.greaterType, Operator.sense] <;> rfl

end LinearForm
end Signs

/-! ## Forms that were read -/

section Exact
variable {K : Type} [Field K] [LinearOrder K] [IsStrictOrderedRing K]

namespace LinearForm

/-- The unknowns count or are missing, and one of them is not. -/
structure Proper (f : LinearForm K) : Prop where
  first : Counted f.a
  second : Counted f.b
  unknowns : ¬ (f.a = 0 ∧ f.b = 0)

theorem Proper.of_ofCoefficients? {a b c : K} {comparison : Formula.Comparison} {f : LinearForm K}
    (h : ofCoefficients? a b c comparison = some f) : f.Proper := by
  unfold ofCoefficients? at h
  split at h
  · cases h
  · dsimp only at h
    split at h
    · cases h
    · next unknown =>
      cases h
      rw [Bool.and_eq_true, isZero_iff_eq, isZero_iff_eq] at unknown
      exact ⟨counted_settled a, counted_settled b, unknown⟩

theorem Proper.of_ofShape? {shape : Shape K} {f : LinearForm K} (h : ofShape? shape = some f) :
    f.Proper := by
  rcases shape with _ | ⟨_ | _⟩ | _ | _ <;> simp only [ofShape?] at h <;>
    exact of_ofCoefficients? h

variable {f : LinearForm K}

theorem Proper.hasLine (h : f.Proper) : f.HasLine := by
  unfold HasLine
  rw [Scalar.abs_eq]
  rcases h.second with missing | counts
  · exact .inr (Bool.eq_false_iff.2 fun zero => h.unknowns ⟨(isZero_iff_eq _).1 zero, missing⟩)
  · exact .inl counts

/-- The squares of the coefficients are at least that of the tolerance. -/
theorem Proper.tolerance_sq_le (h : f.Proper) :
    (tolerance * tolerance : K) ≤ f.a * f.a + f.b * f.b := by
  have square {v : K} (counts : tolerance ≤ |v|) : tolerance * tolerance ≤ v * v := by
    rw [← abs_mul_abs_self v]
    exact mul_self_le_mul_self tolerance_pos.le counts
  rcases h.first with missing | counts
  · have second := h.second.resolve_left fun zero => h.unknowns ⟨missing, zero⟩
    linarith [square second, mul_self_nonneg f.a]
  · linarith [square counts, mul_self_nonneg f.b]

/-! ## The line of a form -/

theorem evaluate_halfway {p q : Point K} (hp : f.evaluate p = 0) (hq : f.evaluate q = 0) :
    f.evaluate (halfway p q) = 0 := by
  have two : (2.0 : K) = 2 := by norm_num
  have mean : f.evaluate (halfway p q) = (f.evaluate p + f.evaluate q) / 2 := by
    simp only [evaluate, halfway, two]
    ring
  rw [mean, hp, hq, add_zero, zero_div]

theorem reach_eq : (reach : K) = 10000 := by
  unfold reach
  norm_num

theorem neg_reach_lt_reach : (-reach : K) < reach := by
  rw [reach_eq]
  norm_num

theorem markOffset_eq : (markOffset : K) = 3 := by
  unfold markOffset
  norm_num

theorem boundary_of_counts (counts : tolerance ≤ |f.b|) :
    f.boundary = .ok
      (⟨-reach, (-f.c - f.a * -reach) / f.b⟩, ⟨reach, (-f.c - f.a * reach) / f.b⟩) := by
  rw [boundary, if_pos (by rwa [Scalar.abs_eq])]

theorem boundary_of_upright (upright : f.b = 0) (first : f.a ≠ 0) :
    f.boundary = .ok (⟨-f.c / f.a, -reach⟩, ⟨-f.c / f.a, reach⟩) := by
  have small : ¬ tolerance ≤ Scalar.abs f.b := by
    rw [Scalar.abs_eq, upright, abs_zero, not_le]
    exact tolerance_pos
  have divides : isZero f.a = false :=
    Bool.eq_false_iff.2 fun zero => first ((isZero_iff_eq _).1 zero)
  simp only [boundary, if_neg small, quotient, divides]
  rfl

variable [Hypot K]

/-- The middle of the line is on it, and along the unit normal the value grows by an amount
that counts. -/
structure Poised (f : LinearForm K) (mid : Point K) (n : Direction K) : Prop where
  midpoint : f.midpoint = .ok mid
  unitNormal : f.unitNormal = .ok (some n)
  on : f.evaluate mid = 0
  unit : n.dx * n.dx + n.dy * n.dy = 1
  normal : f.a * n.dy = f.b * n.dx
  counts : tolerance ≤ |f.growth n|

/-! ## The right side -/

/-- The side a form asks for, judged by a normal of its line. -/
def rightSide (f : LinearForm K) (n : Direction K) : Side :=
  .towards (f.operator.sense * f.growth n)

namespace Poised
variable {mid : Point K} {n : Direction K}

theorem evaluate_along (h : f.Poised mid n) (t : K) :
    f.evaluate ⟨mid.x + n.dx * t, mid.y + n.dy * t⟩ = t * f.growth n := by
  have on := h.on
  simp only [evaluate, growth] at on ⊢
  linear_combination on

/-- Not too near the line, a point along its normal solves the form if the value there has the
sign the operator wants. -/
theorem satisfies_along (h : f.Poised mid n) {t : K} (away : 1 ≤ |t|) :
    f.satisfies ⟨mid.x + n.dx * t, mid.y + n.dy * t⟩ =
      decide (0 < f.operator.sense * (t * f.growth n)) := by
  have counts : tolerance ≤ |f.evaluate ⟨mid.x + n.dx * t, mid.y + n.dy * t⟩| := by
    rw [h.evaluate_along, abs_mul]
    exact h.counts.trans (le_mul_of_one_le_left (abs_nonneg _) away)
  have solves := satisfies_of_counts f.operator counts
  rw [h.evaluate_along] at solves
  exact solves

theorem growth_ne_zero (h : f.Poised mid n) : f.growth n ≠ 0 := ne_zero_of_counts h.counts

theorem sense_growth_ne_zero (h : f.Poised mid n) (region : f.operator ≠ .eq) :
    f.operator.sense * f.growth n ≠ 0 := by
  have sense := Operator.sense_mul_self (K := K) region
  exact mul_ne_zero (left_ne_zero_of_mul_eq_one sense) h.growth_ne_zero

omit [IsStrictOrderedRing K] in
theorem anchor_eq (h : f.Poised mid n) (side : Side) (offset : K) :
    f.anchor side offset =
      .ok (some ⟨mid.x + n.dx * (side.sign * offset), mid.y + n.dy * (side.sign * offset)⟩) := by
  have reordered (d : K) : side.sign * d * offset = d * (side.sign * offset) := by ring
  simp only [anchor, h.unitNormal, h.midpoint, ← reordered]
  rfl

/-- The mark of a side solves the form exactly on the right side. -/
theorem sideSatisfies_eq (h : f.Poised mid n) (region : f.operator ≠ .eq) (side : Side) :
    f.sideSatisfies side = .ok (decide (side = f.rightSide n)) := by
  have away : 1 ≤ |side.sign * (markOffset : K)| := by
    rw [abs_mul, side.abs_sign, markOffset_eq, one_mul, abs_of_pos (by norm_num)]
    norm_num
  have reordered : f.operator.sense * (side.sign * markOffset * f.growth n) =
      3 * (side.sign * (f.operator.sense * f.growth n)) := by
    rw [markOffset_eq]
    ring
  have right : 0 < f.operator.sense * (side.sign * markOffset * f.growth n) ↔
      side = f.rightSide n := by
    rw [reordered, mul_pos_iff_of_pos_left (by norm_num),
      Side.sign_mul_pos_iff (h.sense_growth_ne_zero region), rightSide]
  simp only [sideSatisfies, mark, h.anchor_eq]
  show Except.ok (f.satisfies _) = _
  rw [h.satisfies_along away]
  exact congrArg Except.ok (decide_eq_decide.2 right)

theorem correctSide_eq (h : f.Poised mid n) (region : f.operator ≠ .eq) :
    f.correctSide = .ok (some (f.rightSide n)) := by
  simp only [correctSide, h.sideSatisfies_eq region]
  cases f.rightSide n <;> rfl

theorem fillDirection_none (h : f.Poised mid n) (region : f.operator ≠ .eq) :
    f.fillDirection none = f.fillDirection (some (f.rightSide n)) := by
  have probe := h.satisfies_along (t := 1) (by rw [abs_one])
  simp only [mul_one, one_mul] at probe
  simp only [fillDirection, if_neg region, h.unitNormal, h.midpoint]
  show Except.ok (some (if f.satisfies _ = true then n else n.opposite)) = _
  simp only [probe, decide_eq_true_eq]
  unfold rightSide Side.towards
  split <;> rfl

/-- Without a claim the shade lies towards the right side, along a unit normal of the line. -/
theorem exists_shade (h : f.Poised mid n) (region : f.operator ≠ .eq) :
    ∃ d : Direction K, f.fillDirection none = .ok (some d) ∧ d.dx * d.dx + d.dy * d.dy = 1 ∧
      f.a * d.dy = f.b * d.dx ∧ ∀ offset, f.anchor (f.rightSide n) offset =
        .ok (some ⟨mid.x + d.dx * offset, mid.y + d.dy * offset⟩) := by
  have unit := h.unit
  have normal := h.normal
  rw [h.fillDirection_none region]
  simp only [h.anchor_eq, fillDirection, if_neg region, h.unitNormal]
  cases f.rightSide n with
  | regionA =>
    refine ⟨n.opposite, rfl, ?_, ?_, fun offset => ?_⟩
    · simp only [Direction.opposite]
      linear_combination unit
    · simp only [Direction.opposite]
      linear_combination -normal
    · simp only [Direction.opposite, Side.sign_regionA, neg_mul, mul_neg, one_mul]
  | regionB =>
    refine ⟨n, rfl, unit, normal, fun offset => ?_⟩
    simp only [Side.sign_regionB, one_mul]

/-- Off the line a claim goes by the sides of the line alone. -/
theorem accepts_of_counts (h : f.Poised mid n) (region : f.operator ≠ .eq) (side : Side)
    {p : Point K} (counts : tolerance ≤ |f.evaluate p|) :
    f.accepts (.solved (some side)) p =
      .ok (decide (0 < f.evaluate p * (side.sign * f.growth n))) := by
  have off : ¬ negligible (f.evaluate p) = true := fun noise =>
    not_lt.2 counts ((negligible_iff _).1 noise)
  simp only [accepts, if_neg off, h.unitNormal, decimal_zero]
  rfl

/-- What is claimed of the right side are the solutions, and of the other side those of the form
with the operator turned round. -/
theorem accepts_eq (h : f.Poised mid n) (region : f.operator ≠ .eq) (side : Side) (p : Point K) :
    f.accepts (.solved (some side)) p = .ok
      (if side = f.rightSide n then f.satisfies p
        else ({ f with operator := f.operator.reversed } : LinearForm K).satisfies p) := by
  have same : (if side = f.rightSide n then f.satisfies p
      else ({ f with operator := f.operator.reversed } : LinearForm K).satisfies p) =
      ({ f with
        operator := if side = f.rightSide n then f.operator else f.operator.reversed } :
          LinearForm K).satisfies p := by
    split <;> rfl
  rw [same]
  rcases lt_or_ge |f.evaluate p| tolerance with noise | counts
  · have near : negligible (f.evaluate p) = true := (negligible_iff _).2 noise
    rw [satisfies_of_negligible _ near, apply_ite Operator.strict, Operator.strict_reversed,
      ite_self]
    simp only [accepts, near, if_true]
  · rw [h.accepts_of_counts region side counts, satisfies_of_counts _ counts]
    exact congrArg Except.ok (decide_eq_decide.2
      (Operator.claim_iff region (h.sense_growth_ne_zero region) side _))

end Poised

/-! ## The right side by the coefficients -/

/-- A line that is not upright goes to the right, and its normal points up. -/
theorem dy_pos_of_unitNormal {n : Direction K} (h : f.unitNormal = .ok (some n))
    (counts : tolerance ≤ |f.b|) : 0 < n.dy := by
  obtain ⟨⟨p, q⟩, boundary, normal⟩ := bind_ok_iff.1 h
  rw [boundary_of_counts counts] at boundary
  cases boundary
  dsimp only at normal
  split at normal
  · cases normal
  · next long =>
    cases normal
    exact div_pos (sub_pos.2 neg_reach_lt_reach) (tolerance_pos.trans_le (not_lt.1 long))

/-- An upright line goes up, and its normal points to the left. -/
theorem dx_neg_of_unitNormal {n : Direction K} (h : f.unitNormal = .ok (some n))
    (upright : f.b = 0) : n.dx < 0 := by
  obtain ⟨⟨p, q⟩, boundary, normal⟩ := bind_ok_iff.1 h
  have small : ¬ tolerance ≤ Scalar.abs f.b := by
    rw [Scalar.abs_eq, upright, abs_zero, not_le]
    exact tolerance_pos
  rw [LinearForm.boundary, if_neg small] at boundary
  obtain ⟨x, -, ends⟩ := bind_ok_iff.1 boundary
  cases ends
  dsimp only at normal
  split at normal
  · cases normal
  · next long =>
    cases normal
    exact div_neg_of_neg_of_pos (neg_neg_of_pos (sub_pos.2 neg_reach_lt_reach))
      (tolerance_pos.trans_le (not_lt.1 long))

namespace Poised
variable {mid : Point K} {n : Direction K}

omit [IsStrictOrderedRing K] in
theorem growth_mul_dx (h : f.Poised mid n) : f.growth n * n.dx = f.a := by
  have unit := h.unit
  have normal := h.normal
  simp only [growth]
  linear_combination f.a * unit - n.dy * normal

omit [IsStrictOrderedRing K] in
theorem growth_mul_dy (h : f.Poised mid n) : f.growth n * n.dy = f.b := by
  have unit := h.unit
  have normal := h.normal
  simp only [growth]
  linear_combination f.b * unit + n.dx * normal

theorem rightSide_of_counts (h : f.Poised mid n) (counts : tolerance ≤ |f.b|) :
    f.rightSide n = .towards (f.operator.sense * f.b) := by
  have up := dy_pos_of_unitNormal h.unitNormal counts
  rw [rightSide, ← h.growth_mul_dy, ← mul_assoc, Side.towards_mul_pos up]

theorem rightSide_of_upright (h : f.Poised mid n) (upright : f.b = 0) :
    f.rightSide n = .towards (-(f.operator.sense * f.a)) := by
  have left := neg_pos.2 (dx_neg_of_unitNormal h.unitNormal upright)
  rw [rightSide, ← h.growth_mul_dx, ← mul_assoc, ← mul_neg, Side.towards_mul_pos left]

end Poised

/-! ## Every form that was read is poised -/

variable [EuclideanLength K]

/-- The far points are on the line, and far apart. -/
theorem Proper.exists_boundary (h : f.Proper) : ∃ p q, f.boundary = .ok (p, q) ∧
    f.evaluate p = 0 ∧ f.evaluate q = 0 ∧ tolerance ≤ Hypot.hypot (q.x - p.x) (q.y - p.y) := by
  have far : (tolerance : K) ≤ |reach - -reach| := by
    rw [reach_eq, show (10000 - -10000 : K) = 20000 by norm_num, abs_of_pos (by norm_num)]
    linarith [tolerance_le_one (K := K)]
  rcases h.second with missing | counts
  · have first : f.a ≠ 0 := fun zero => h.unknowns ⟨zero, missing⟩
    refine ⟨_, _, boundary_of_upright missing first, ?_, ?_, ?_⟩
    · simp only [evaluate, missing]
      field_simp
      ring
    · simp only [evaluate, missing]
      field_simp
      ring
    · exact far.trans (abs_right_le_hypot _ _)
  · have second : f.b ≠ 0 := ne_zero_of_counts counts
    refine ⟨_, _, boundary_of_counts counts, ?_, ?_, ?_⟩
    · simp only [evaluate]
      field_simp
      ring
    · simp only [evaluate]
      field_simp
      ring
    · exact far.trans (abs_left_le_hypot _ _)

theorem Proper.exists_poised (h : f.Proper) : ∃ mid n, f.Poised mid n := by
  obtain ⟨p, q, boundary, hp, hq, far⟩ := h.exists_boundary
  obtain ⟨length, hl⟩ : ∃ length, Hypot.hypot (q.x - p.x) (q.y - p.y) = length := ⟨_, rfl⟩
  rw [hl] at far
  have positive : 0 < length := tolerance_pos.trans_le far
  have squares : (q.x - p.x) * (q.x - p.x) + (q.y - p.y) * (q.y - p.y) = length * length := by
    rw [← hypot_mul_self, hl]
  have along : f.a * (q.x - p.x) + f.b * (q.y - p.y) = 0 := by
    simp only [evaluate] at hp hq
    linarith
  have unit : -(q.y - p.y) / length * (-(q.y - p.y) / length) +
      (q.x - p.x) / length * ((q.x - p.x) / length) = 1 := by
    field_simp
    linarith
  have normal : f.a * ((q.x - p.x) / length) = f.b * (-(q.y - p.y) / length) := by
    field_simp
    linarith
  refine ⟨halfway p q, ⟨-(q.y - p.y) / length, (q.x - p.x) / length⟩, ?_, ?_,
    evaluate_halfway hp hq, unit, normal, ?_⟩
  · simp only [midpoint, boundary]
    rfl
  · simp only [unitNormal, boundary]
    show (if Hypot.hypot (q.x - p.x) (q.y - p.y) < tolerance then _ else _) = _
    rw [hl, if_neg (not_lt.2 far)]
    rfl
  · rw [← abs_of_pos (tolerance_pos (K := K)), abs_le_iff_mul_self_le, growth_mul_self unit normal]
    exact h.tolerance_sq_le

/-- The side a form asks for is told by the sign of the coefficient that says where the line goes:
above the line or below it, and of an upright line to the left or to the right. -/
theorem Proper.correctSide_eq (h : f.Proper) (region : f.operator ≠ .eq) :
    f.correctSide = .ok (some (if f.b = 0 then .towards (-(f.operator.sense * f.a))
      else .towards (f.operator.sense * f.b))) := by
  obtain ⟨mid, n, poised⟩ := h.exists_poised
  rw [poised.correctSide_eq region]
  split
  · next upright => rw [poised.rightSide_of_upright upright]
  · next leans => rw [poised.rightSide_of_counts (h.second.resolve_left leans)]

end LinearForm
end Exact

namespace LinearForm

/-- A form whose only coefficient barely counts. -/
noncomputable def faint : LinearForm ℝ := ⟨0, tolerance, 0, .gt⟩

theorem ofShape?_faint : ofShape? (.single .y tolerance 0 .gt) = some faint := by
  have counts : Counted (tolerance : ℝ) := .inr (le_abs_self _)
  have unknowns : ¬ ((0 : ℝ) = 0 ∧ (tolerance : ℝ) = 0) := fun zero => tolerance_pos.ne' zero.2
  simp only [ofShape?, decimal_zero]
  exact ofCoefficients?_eq (.inl rfl) counts (.inl rfl) unknowns rfl

end LinearForm
end HalfPlane
