/-
What the shading of an inequality covers.

The shading is a rectangle. One edge is the stretch of the line between its far points, and from
there it goes into the half plane along a unit normal: towards the claimed side, or else towards
the right one (`Direction.facing`). The value of a form at a weighted mean of points is the mean of
its values there (`evaluate_blend`). Of the four corners two are on the line and two on one side of
it, so nothing in the rectangle is on the other side (`shade_stays_on_side`).
-/
import Mathlib.Algebra.BigOperators.Group.List.Basic
import HalfPlane.Proofs.Geometry.Crossing
import HalfPlane.Proofs.Geometry.Sides

namespace HalfPlane
open Scalar

section Means
variable {K : Type} [Field K]

/-! ## Weighted means of points -/

/-- The sum of points, each taken with its weight. -/
def Point.blend (weights : List K) (points : List (Point K)) : Point K :=
  ⟨(List.zipWith (fun w p => w * p.x) weights points).sum,
    (List.zipWith (fun w p => w * p.y) weights points).sum⟩

/-- A weighted mean of points. -/
def Point.IsMean [LE K] (points : List (Point K)) (x : Point K) : Prop :=
  ∃ weights : List K, weights.length = points.length ∧ (∀ w ∈ weights, 0 ≤ w) ∧
    weights.sum = 1 ∧ x = blend weights points

end Means

/-- The point that is so far from another one in a direction. -/
def Point.toward {K : Type} [Add K] [Mul K] (p : Point K) (d : Direction K) (t : K) : Point K :=
  ⟨p.x + d.dx * t, p.y + d.dy * t⟩

section Order
variable {K : Type} [Field K] [LinearOrder K]

/-- The direction of a normal, or the opposite one, that leads to a side. -/
def Direction.facing (n : Direction K) : Side → Direction K
  | .regionA => n.opposite
  | .regionB => n

namespace LinearForm
variable {f : LinearForm K} {n d : Direction K}

theorem evaluate_blend (f : LinearForm K) {weights : List K} {points : List (Point K)}
    (sizes : weights.length = points.length) :
    f.a * (Point.blend weights points).x + f.b * (Point.blend weights points).y +
      f.c * weights.sum = (List.zipWith (fun w p => w * f.evaluate p) weights points).sum := by
  induction weights generalizing points with
  | nil => simp [Point.blend]
  | cons w weights ih =>
    cases points with
    | nil => cases sizes
    | cons p points =>
      have rest := ih (Nat.succ.inj sizes)
      simp only [Point.blend, List.zipWith_cons_cons, List.sum_cons] at rest ⊢
      rw [← rest, evaluate]
      ring

/-- A point strictly on the side of the line to which a direction leads. -/
def Beyond (f : LinearForm K) (d : Direction K) (x : Point K) : Prop :=
  0 < f.growth d * f.evaluate x

theorem evaluate_toward (f : LinearForm K) (p : Point K) (d : Direction K) (t : K) :
    f.evaluate (p.toward d t) = f.evaluate p + t * f.growth d := by
  simp only [evaluate, Point.toward, growth]
  ring

theorem growth_opposite (f : LinearForm K) (d : Direction K) :
    f.growth d.opposite = -f.growth d := by
  simp only [growth, Direction.opposite]
  ring

variable [IsStrictOrderedRing K]

theorem growth_facing (f : LinearForm K) (n : Direction K) (side : Side) :
    f.growth (n.facing side) = side.sign * f.growth n := by
  cases side with
  | regionA => rw [Direction.facing, growth_opposite, Side.sign_regionA, neg_one_mul]
  | regionB => rw [Direction.facing, Side.sign_regionB, one_mul]

omit [IsStrictOrderedRing K] in
theorem unit_facing (unit : n.dx * n.dx + n.dy * n.dy = 1) (side : Side) :
    (n.facing side).dx * (n.facing side).dx + (n.facing side).dy * (n.facing side).dy = 1 := by
  cases side with
  | regionA => simpa only [Direction.facing, Direction.opposite, neg_mul_neg] using unit
  | regionB => exact unit

theorem Beyond.not_opposite {x : Point K} (h : f.Beyond d x) : ¬ f.Beyond d.opposite x := by
  unfold Beyond at h ⊢
  rw [growth_opposite, neg_mul]
  linarith

omit [IsStrictOrderedRing K] in
theorem not_beyond_of_on {x : Point K} (on : f.evaluate x = 0) : ¬ f.Beyond d x := by
  rw [Beyond, on, mul_zero]
  exact lt_irrefl 0

/-- Off the line a point is on one side or the other. -/
theorem beyond_opposite_iff {x : Point K} (steep : f.growth d ≠ 0) (off : f.evaluate x ≠ 0) :
    f.Beyond d.opposite x ↔ ¬ f.Beyond d x := by
  rw [Beyond, Beyond, growth_opposite, neg_mul, neg_pos, not_lt]
  exact (mul_ne_zero steep off).le_iff_lt.symm

theorem beyond_toward {x : Point K} {t : K} (steep : f.growth d ≠ 0) (on : f.evaluate x = 0)
    (ht : 0 < t) : f.Beyond d (x.toward d t) := by
  rw [Beyond, evaluate_toward, on, zero_add, mul_left_comm]
  exact mul_pos ht (mul_self_pos.2 steep)

/-- A weighted mean of points on the line, or on one side of it, is there too. -/
theorem beyond_of_isMean {points : List (Point K)} {x : Point K} (steep : f.growth d ≠ 0)
    (sided : ∀ p ∈ points, f.evaluate p = 0 ∨ f.Beyond d p) (mean : Point.IsMean points x) :
    f.evaluate x = 0 ∨ f.Beyond d x := by
  obtain ⟨weights, sizes, nonneg, whole, rfl⟩ := mean
  have value := f.evaluate_blend sizes
  rw [whole, mul_one] at value
  have terms : ∀ v ∈ List.zipWith (fun w p => w * f.evaluate p) weights points,
      0 ≤ f.growth d * v := by
    intro v hv
    obtain ⟨i, hi, rfl⟩ := List.getElem_of_mem hv
    rw [List.length_zipWith, lt_min_iff] at hi
    rw [List.getElem_zipWith, mul_left_comm]
    refine mul_nonneg (nonneg _ (List.getElem_mem hi.1)) ?_
    rcases sided _ (List.getElem_mem hi.2) with on | beyond
    · rw [on, mul_zero]
    · exact beyond.le
  have total : 0 ≤ f.growth d * f.evaluate (Point.blend weights points) := by
    rw [evaluate, value, ← List.map_id' (List.zipWith _ _ _), ← List.sum_map_mul_left]
    refine List.sum_nonneg fun v hv => ?_
    obtain ⟨u, hu, rfl⟩ := List.mem_map.1 hv
    exact terms u hu
  rcases total.eq_or_lt with zero | beyond
  · exact .inl ((mul_eq_zero.1 zero.symm).resolve_left steep)
  · exact .inr beyond

/-- A rectangle over a stretch of the line stays on the side to which it goes. -/
theorem rectangle_stays {p q x : Point K} (steep : f.growth d ≠ 0) (hp : f.evaluate p = 0)
    (hq : f.evaluate q = 0)
    (mean : Point.IsMean [p, q, q.toward d reach, p.toward d reach] x) :
    (f.evaluate x = 0 ∨ f.Beyond d x) ∧ ¬ f.Beyond d.opposite x := by
  have deep : (0 : K) < reach := by
    rw [reach_eq]
    norm_num
  have there : f.evaluate x = 0 ∨ f.Beyond d x := by
    refine beyond_of_isMean steep ?_ mean
    simp only [List.forall_mem_cons, List.not_mem_nil, IsEmpty.forall_iff, implies_true, and_true]
    exact ⟨.inl hp, .inl hq, .inr (beyond_toward steep hq deep), .inr (beyond_toward steep hp deep)⟩
  exact ⟨there, there.elim not_beyond_of_on Beyond.not_opposite⟩

end LinearForm
end Order

/-! ## The side that is shaded -/

namespace LinearForm
section Poised
variable {K : Type} [Field K] [LinearOrder K] [IsStrictOrderedRing K] [Hypot K]

/-- The side that is claimed, or else the right one. -/
def meantSide (f : LinearForm K) (n : Direction K) (solution : Solution) : Side :=
  solution.side?.getD (f.rightSide n)

namespace Poised
variable {f : LinearForm K} {mid : Point K} {n : Direction K}

/-- The normal is at right angles to the way between two points of the line. -/
theorem across (h : f.Poised mid n) {p q : Point K} (hp : f.evaluate p = 0)
    (hq : f.evaluate q = 0) : n.dx * (q.x - p.x) + n.dy * (q.y - p.y) = 0 := by
  refine (mul_eq_zero.1 ?_).resolve_left h.growth_ne_zero
  have first := h.growth_mul_dx
  have second := h.growth_mul_dy
  simp only [evaluate] at hp hq
  linear_combination (q.x - p.x) * first + (q.y - p.y) * second + hq - hp

theorem across_facing (h : f.Poised mid n) {p q : Point K} (hp : f.evaluate p = 0)
    (hq : f.evaluate q = 0) (side : Side) :
    (n.facing side).dx * (q.x - p.x) + (n.facing side).dy * (q.y - p.y) = 0 := by
  have across := h.across hp hq
  cases side with
  | regionA =>
    simp only [Direction.facing, Direction.opposite]
    linear_combination -across
  | regionB => exact across

theorem growth_facing_ne_zero (h : f.Poised mid n) (side : Side) :
    f.growth (n.facing side) ≠ 0 := by
  rw [growth_facing]
  exact mul_ne_zero side.sign_ne_zero h.growth_ne_zero

theorem fillDirection_facing (h : f.Poised mid n) (region : f.operator ≠ .eq)
    (solution : Solution) :
    f.fillDirection solution.side? = .ok (some (n.facing (f.meantSide n solution))) := by
  have claimed (side : Side) : f.fillDirection (some side) = .ok (some (n.facing side)) := by
    simp only [fillDirection, if_neg region, h.unitNormal]
    cases side <;> rfl
  unfold meantSide
  cases solution.side? with
  | none => rw [h.fillDirection_none region, claimed, Option.getD_none]
  | some side => rw [claimed, Option.getD_some]

theorem anchor_facing (h : f.Poised mid n) (side : Side) (offset : K) :
    f.anchor side offset = .ok (some (mid.toward (n.facing side) offset)) := by
  rw [h.anchor_eq]
  cases side with
  | regionA =>
    simp only [Side.sign_regionA, Direction.facing, Direction.opposite, Point.toward, neg_mul,
      one_mul, mul_neg]
  | regionB => simp only [Side.sign_regionB, Direction.facing, Point.toward, one_mul]

/-- Off the line what is accepted is what lies on that side. -/
theorem accepts_facing (h : f.Poised mid n) (region : f.operator ≠ .eq) {solution : Solution}
    (sided : solution ≠ .solved none) {x : Point K} (counts : tolerance ≤ |f.evaluate x|) :
    f.accepts solution x =
      .ok (decide (0 < f.growth (n.facing (f.meantSide n solution)) * f.evaluate x)) := by
  cases solution with
  | unsolved =>
    have solves := satisfies_of_counts f.operator counts
    refine congrArg Except.ok (solves.trans (decide_eq_decide.2 ?_))
    have claim := Operator.claim_iff region (h.sense_growth_ne_zero region) (f.rightSide n)
      (f.evaluate x)
    have wanted : f.rightSide n = .towards (f.operator.sense * f.growth n) := rfl
    rw [if_pos wanted] at claim
    rw [growth_facing, mul_comm (_ * _) (f.evaluate x)]
    exact claim.symm
  | solved side? =>
    cases side? with
    | none => exact absurd rfl sided
    | some side =>
      rw [h.accepts_of_counts region side counts, growth_facing, mul_comm]
      rfl

end Poised
end Poised

/-! ## The rectangle -/

section Shading
variable {K : Type} [Field K] [LinearOrder K] [IsStrictOrderedRing K] [Hypot K] [EuclideanLength K]

/-- The shading of a form that was read, unless it is an equation, is a rectangle over the stretch
of the line between the far points, as deep as the reach. It goes to the side that is accepted,
which is the claimed one if there is one. All of it is on the line or strictly on that side, and so
nothing of it is strictly on the other. -/
theorem shade_stays_on_side {shape : Shape K} {f : LinearForm K} (read : ofShape? shape = some f)
    (region : f.operator ≠ .eq) {solution : Solution} (sided : solution ≠ .solved none) :
    ∃ (p q : Point K) (d : Direction K),
      f.boundary = .ok (p, q) ∧
      f.shade solution.side? = .ok (some [p, q, q.toward d reach, p.toward d reach]) ∧
      (f.evaluate p = 0 ∧ f.evaluate q = 0 ∧ p ≠ q) ∧
      (d.dx * d.dx + d.dy * d.dy = 1 ∧ d.dx * (q.x - p.x) + d.dy * (q.y - p.y) = 0) ∧
      (∀ x, tolerance ≤ |f.evaluate x| →
        (f.accepts solution x = .ok true ↔ f.Beyond d x) ∧
          (f.accepts solution x = .ok false ↔ f.Beyond d.opposite x)) ∧
      (∀ side offset, solution = .solved (some side) → 0 < offset →
        ∃ x, f.anchor side offset = .ok (some x) ∧ f.Beyond d x) ∧
      ∀ x, Point.IsMean [p, q, q.toward d reach, p.toward d reach] x →
        (f.evaluate x = 0 ∨ f.Beyond d x) ∧ ¬ f.Beyond d.opposite x := by
  have proper := Proper.of_ofShape? read
  obtain ⟨mid, n, h⟩ := proper.exists_poised
  obtain ⟨p, q, boundary, hp, hq, far⟩ := proper.exists_boundary
  obtain ⟨side, hs⟩ : ∃ side, f.meantSide n solution = side := ⟨_, rfl⟩
  have direction := h.fillDirection_facing region solution
  have accepted := fun x => h.accepts_facing region sided (x := x)
  rw [hs] at direction accepted
  have steep := h.growth_facing_ne_zero side
  refine ⟨p, q, n.facing side, boundary, ?_, ⟨hp, hq, ?_⟩,
    ⟨unit_facing h.unit side, h.across_facing hp hq side⟩, ?_, ?_, ?_⟩
  · simp only [shade, direction, boundary]
    rfl
  · rintro rfl
    rw [sub_self, sub_self, hypot_zero_right, abs_zero] at far
    exact not_lt.2 far tolerance_pos
  · intro x counts
    have off := ne_zero_of_counts counts
    rw [accepted x counts, beyond_opposite_iff steep off, Except.ok.injEq, Except.ok.injEq,
      decide_eq_true_eq, decide_eq_false_iff_not]
    exact ⟨Iff.rfl, Iff.rfl⟩
  · rintro claimed offset rfl positive
    obtain rfl : claimed = side := hs
    exact ⟨_, h.anchor_facing claimed offset, beyond_toward steep h.on positive⟩
  · exact fun x mean => rectangle_stays steep hp hq mean

end Shading

/-- An upright line that barely counts, with the side to its right claimed of it: the middle of the
shading is on that side, and no part of the shading is on the other. -/
theorem shade_stays_on_side_of_upright : ∃ (p q : Point ℝ) (d : Direction ℝ),
    upright.shade (some .regionA) = .ok (some [p, q, q.toward d reach, p.toward d reach]) ∧
      (∃ x, upright.anchor .regionA 3 = .ok (some x) ∧ upright.Beyond d x) ∧
      Point.IsMean [p, q, q.toward d reach, p.toward d reach]
        (.blend [1 / 4, 1 / 4, 1 / 4, 1 / 4] [p, q, q.toward d reach, p.toward d reach]) ∧
      ¬ upright.Beyond d.opposite
        (.blend [1 / 4, 1 / 4, 1 / 4, 1 / 4] [p, q, q.toward d reach, p.toward d reach]) := by
  have claimed : Solution.solved (some .regionA) ≠ .solved none := by simp
  obtain ⟨p, q, d, -, shaded, -, -, -, marked, covered⟩ :=
    shade_stays_on_side ofShape?_upright (by simp [upright]) claimed
  have mean : Point.IsMean [p, q, q.toward d reach, p.toward d reach]
      (.blend [1 / 4, 1 / 4, 1 / 4, 1 / 4] [p, q, q.toward d reach, p.toward d reach]) :=
    ⟨_, rfl, by norm_num, by norm_num, rfl⟩
  exact ⟨p, q, d, shaded, marked .regionA 3 rfl (by norm_num), mean, (covered _ mean).2⟩

end LinearForm
end HalfPlane
