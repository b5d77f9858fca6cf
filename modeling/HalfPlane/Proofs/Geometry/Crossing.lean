/-
The point that two lines have in common.

Two lines meet in one point unless their forms have a vanishing determinant, and then the point
is the one that elimination finds (`meetAt_common`). The determinant grows with each of the two
forms, and the tolerance does not. So the answer is right if the determinant vanishes or counts,
and otherwise two lines that meet are taken for parallel ones (`crossing_right_iff`), and their
corner is passed over.
-/
import Mathlib.Tactic.FieldSimp
import Mathlib.Tactic.LinearCombination
import HalfPlane.Geometry.Corners
import HalfPlane.Proofs.Geometry.Scale

namespace HalfPlane
open Scalar

namespace LinearForm
section Field
variable {K : Type} [Field K]

/-- The determinant of the coefficients of the unknowns. -/
def det (f g : LinearForm K) : K := f.a * g.b - g.a * f.b

/-- The lines run side by side, or are one. -/
def Parallel (f g : LinearForm K) : Prop := f.a * g.b = g.a * f.b

theorem parallel_iff {f g : LinearForm K} : f.Parallel g ↔ f.det g = 0 := sub_eq_zero.symm

/-- The point that elimination finds. -/
def common (f g : LinearForm K) : Point K :=
  ⟨(f.b * g.c - g.b * f.c) / f.det g, (g.a * f.c - f.a * g.c) / f.det g⟩

theorem det_swap (f g : LinearForm K) : g.det f = -f.det g := by
  simp only [det]
  ring

theorem common_swap (f g : LinearForm K) : g.common f = f.common g := by
  simp only [common, det_swap f g, Point.mk.injEq, div_neg, ← neg_div]
  constructor <;> congr 1 <;> ring

variable [LinearOrder K]

/-- The point is on both lines, and no other point is. -/
def MeetAt (f g : LinearForm K) (p : Point K) : Prop :=
  ∀ q : Point K, f.evaluate q = 0 ∧ g.evaluate q = 0 ↔ q = p

theorem det_times (k l : K) (f g : LinearForm K) :
    (f.times k).det (g.times l) = k * l * f.det g := by
  simp only [det, times]
  ring

theorem common_times {k l : K} (hk : k ≠ 0) (hl : l ≠ 0) (f g : LinearForm K) :
    (f.times k).common (g.times l) = f.common g := by
  have factor : k * l ≠ 0 := mul_ne_zero hk hl
  simp only [common, Point.mk.injEq, det_times]
  constructor
  · rw [← mul_div_mul_left (f.b * g.c - g.b * f.c) (f.det g) factor]
    congr 1
    simp only [times]
    ring
  · rw [← mul_div_mul_left (g.a * f.c - f.a * g.c) (f.det g) factor]
    congr 1
    simp only [times]
    ring

theorem meetAt_common {f g : LinearForm K} (meets : f.det g ≠ 0) : f.MeetAt g (f.common g) := by
  intro q
  obtain ⟨d, hd⟩ : ∃ d, f.det g = d := ⟨_, rfl⟩
  simp only [common, hd] at meets ⊢
  simp only [det] at hd
  constructor
  · rintro ⟨hf, hg⟩
    simp only [evaluate] at hf hg
    cases q with
    | mk x y =>
      rw [Point.mk.injEq, eq_div_iff meets, eq_div_iff meets]
      constructor
      · linear_combination -x * hd + g.b * hf - f.b * hg
      · linear_combination -y * hd - g.a * hf + f.a * hg
  · rintro rfl
    simp only [evaluate]
    constructor
    · field_simp
      linear_combination -f.c * hd
    · field_simp
      linear_combination -g.c * hd

variable [IsStrictOrderedRing K] {f g : LinearForm K}

theorem crossing_eq (f g : LinearForm K) :
    f.crossing g = if |f.det g| < tolerance then none else some (f.common g) := by
  simp only [crossing, decimal_zero, add_zero, negligible_iff]
  rfl

theorem crossing_eq_none_iff : f.crossing g = none ↔ |f.det g| < tolerance := by
  rw [crossing_eq]
  split <;> simp [*]

theorem crossing_eq_some_iff {p : Point K} :
    f.crossing g = some p ↔ tolerance ≤ |f.det g| ∧ f.common g = p := by
  rw [crossing_eq]
  split
  · next small => simp [small]
  · next counts => simp [not_lt.1 counts]

/-- Lines that have a crossing meet there. -/
theorem meetAt_of_crossing {p : Point K} (h : f.crossing g = some p) : f.MeetAt g p := by
  obtain ⟨counts, rfl⟩ := crossing_eq_some_iff.1 h
  exact meetAt_common (ne_zero_of_counts counts)

theorem crossing_times_iff {k l : K} (hk : k ≠ 0) (hl : l ≠ 0) :
    (f.times k).crossing (g.times l) = f.crossing g ↔
      (|f.det g| < tolerance ↔ |k * l| * |f.det g| < tolerance) := by
  rw [crossing_eq, crossing_eq, det_times, abs_mul, common_times hk hl]
  split <;> split <;> simp [*, -abs_mul]

end Field
end LinearForm

/-! ## Pairs that are passed over -/

section Corners
variable {K : Type} [Field K] [LinearOrder K] [IsStrictOrderedRing K] [Hypot K]
open LinearForm

/-- Whatever was found before and whoever else has a say, a pair gives no corner exactly if its
determinant does not count. -/
theorem Corner.passed_over_iff (q r : Inequality K) :
    (∀ found others, extend found (q, r, others) = .ok found) ↔
      |q.form.det r.form| < tolerance := by
  rw [← crossing_eq_none_iff]
  constructor
  · intro passed
    cases crossing : q.form.crossing r.form with
    | none => rfl
    | some p =>
      have alone := passed [] []
      simp only [extend, crossing] at alone
      cases alone
  · intro crossing found others
    simp only [extend, crossing]

end Corners

namespace LinearForm
section Field
variable {K : Type} [Field K] [LinearOrder K] [IsStrictOrderedRing K]

/-- Lines that are not parallel meet in one point, and this is their crossing if they have one,
whichever of them comes first. To have none says that the lines are parallel exactly if the
determinant vanishes or counts: otherwise the pair is passed over although the lines meet.
Multiples have the same crossing unless one of the determinants counts and the other does not. -/
theorem crossing_right_iff (f g : LinearForm K) :
    ((f.crossing g = none ↔ f.Parallel g) ↔ f.Parallel g ∨ tolerance ≤ |f.det g|) ∧
      (¬ f.Parallel g → ∃ p, f.MeetAt g p) ∧
      (∀ p, f.crossing g = some p → f.MeetAt g p) ∧
      g.crossing f = f.crossing g ∧
      (∀ k l : K, k ≠ 0 → l ≠ 0 → ((f.times k).crossing (g.times l) = f.crossing g ↔
        (|f.det g| < tolerance ↔ |k * l| * |f.det g| < tolerance))) ∧
      ∀ (_ : Hypot K) (q r : Inequality K), q.form = f → r.form = g →
        ((∀ found others, Corner.extend found (q, r, others) = .ok found) ↔
          |f.det g| < tolerance) := by
  refine ⟨?_, fun meets => ⟨_, meetAt_common (mt parallel_iff.2 meets)⟩,
    fun p crossing => meetAt_of_crossing crossing, ?_,
    fun k l hk hl => crossing_times_iff hk hl, fun _ q r hq hr => ?_⟩
  · rw [crossing_eq_none_iff, parallel_iff, ← not_lt]
    constructor
    · intro right
      by_cases small : |f.det g| < tolerance
      · exact .inl (right.1 small)
      · exact .inr small
    · rintro (zero | counts)
      · rw [zero, abs_zero]
        exact iff_of_true tolerance_pos rfl
      · refine iff_of_false counts fun zero => counts ?_
        rw [zero, abs_zero]
        exact tolerance_pos
  · rw [crossing_eq, crossing_eq, det_swap, abs_neg, common_swap]
  · rw [← hq, ← hr]
    exact Corner.passed_over_iff q r

end Field

/-- An upright line whose only coefficient barely counts. -/
noncomputable def upright : LinearForm ℝ := ⟨tolerance, 0, 0, .gt⟩

theorem ofShape?_upright : ofShape? (.single .x tolerance 0 .gt) = some upright := by
  have counts : Counted (tolerance : ℝ) := .inr (le_abs_self _)
  have unknowns : ¬ ((tolerance : ℝ) = 0 ∧ (0 : ℝ) = 0) := fun zero => tolerance_pos.ne' zero.1
  simp only [ofShape?, decimal_zero]
  exact ofCoefficients?_eq counts (.inl rfl) (.inl rfl) unknowns rfl

theorem upright_det_faint : upright.det faint = tolerance * tolerance := by
  simp only [det, upright, faint, zero_mul, sub_zero]

theorem upright_common_faint : upright.common faint = ⟨0, 0⟩ := by
  simp only [common, upright, faint, mul_zero, sub_zero, zero_div]

theorem upright_not_parallel : ¬ upright.Parallel faint := by
  rw [parallel_iff, upright_det_faint]
  exact mul_ne_zero tolerance_pos.ne' tolerance_pos.ne'

theorem upright_det_small : |upright.det faint| < tolerance := by
  rw [upright_det_faint, tolerance_eq]
  norm_num

/-- The two lines are read from formulas and meet in the origin, but have no crossing. -/
theorem not_always_crossing :
    ofShape? (.single .x tolerance 0 .gt) = some upright ∧
      ofShape? (.single .y tolerance 0 .gt) = some faint ∧
      ¬ upright.Parallel faint ∧ upright.MeetAt faint ⟨0, 0⟩ ∧ upright.crossing faint = none := by
  have meets := meetAt_common (mt parallel_iff.2 upright_not_parallel)
  rw [upright_common_faint] at meets
  exact ⟨ofShape?_upright, ofShape?_faint, upright_not_parallel, meets,
    crossing_eq_none_iff.2 upright_det_small⟩

/-- As they are the lines meet and are passed over. Multiplied until their coefficients are one,
they have a crossing. -/
theorem crossing_right_of_axes :
    (∃ p, upright.MeetAt faint p) ∧
      Corner.extend [] (⟨upright, "d1", "", "", "", .unsolved⟩,
        ⟨faint, "d2", "", "", "", .unsolved⟩, []) = .ok [] ∧
      (upright.times tolerance⁻¹).MeetAt (faint.times tolerance⁻¹) ⟨0, 0⟩ ∧
      (upright.times tolerance⁻¹).crossing (faint.times tolerance⁻¹) ≠ upright.crossing faint := by
  have positive := tolerance_pos (K := ℝ)
  have factor : (tolerance⁻¹ : ℝ) ≠ 0 := (inv_pos.2 positive).ne'
  have one : |tolerance⁻¹ * tolerance⁻¹| * |upright.det faint| = 1 := by
    rw [upright_det_faint, ← abs_mul, mul_mul_mul_comm, inv_mul_cancel₀ positive.ne', mul_one,
      abs_one]
  have crossing : (upright.times tolerance⁻¹).crossing (faint.times tolerance⁻¹) = some ⟨0, 0⟩ := by
    rw [crossing_eq_some_iff, det_times, abs_mul, one, common_times factor factor]
    exact ⟨tolerance_le_one, upright_common_faint⟩
  obtain ⟨-, -, meets, -⟩ :=
    crossing_right_iff (upright.times tolerance⁻¹) (faint.times tolerance⁻¹)
  obtain ⟨-, common, -, -, multiples, passed⟩ := crossing_right_iff upright faint
  refine ⟨common upright_not_parallel, (passed _ _ _ rfl rfl).2 upright_det_small [] [],
    meets _ crossing, fun same => ?_⟩
  have kept := (multiples _ _ factor factor).1 same
  rw [one] at kept
  exact not_lt.2 tolerance_le_one (kept.1 upright_det_small)

end LinearForm
end HalfPlane
