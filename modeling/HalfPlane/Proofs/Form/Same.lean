/-
Forms that count as the same.

Two forms with a line count as the same when their unit forms are close: the operators agree,
and each coefficient does up to the tolerance (`exists_sameAs`). In exact arithmetic a form
and its multiples have one unit form (`unitForm_times`), so no multiple is told from the form.
Forms that are close differ by less than `tolerance * (|x| + |y| + 1)` at `(x, y)`. Where the
line of one is further away than that, the two have values of one sign, so they say the same
of the point (`Close.holds_iff`).
-/
import Mathlib.Analysis.Real.Sqrt
import Mathlib.Tactic.FieldSimp
import Mathlib.Tactic.LinearCombination
import HalfPlane.Proofs.Form.Meaning

namespace HalfPlane
open Scalar EuclideanLength

section Field
variable {K : Type} [Field K] [LinearOrder K]

/-- An operator turned round holds of the opposite value. -/
theorem Operator.holds_reversed [IsStrictOrderedRing K] (o : Operator) (v : K) :
    o.reversed.Holds (-v) ↔ o.Holds v := by
  cases o <;> simp [Operator.reversed, Operator.Holds]

/-- What an operator says of a value depends on the sign of the value alone. -/
theorem Operator.holds_congr {v w : K} (positive : 0 < v ↔ 0 < w) (negative : v < 0 ↔ w < 0)
    (o : Operator) : o.Holds v ↔ o.Holds w := by
  have zero : v = 0 ↔ w = 0 := by
    constructor
    · intro h
      exact le_antisymm (not_lt.1 fun hw => (positive.2 hw).ne' h)
        (not_lt.1 fun hw => (negative.2 hw).ne h)
    · intro h
      exact le_antisymm (not_lt.1 fun hv => (positive.1 hv).ne' h)
        (not_lt.1 fun hv => (negative.1 hv).ne h)
  cases o
  · exact negative
  · exact not_lt.symm.trans ((not_congr positive).trans not_lt)
  · exact positive
  · exact not_lt.symm.trans ((not_congr negative).trans not_lt)
  · exact zero

namespace LinearForm

/-- The form multiplied by a number. A negative one turns the operator round. -/
def times (k : K) (f : LinearForm K) : LinearForm K :=
  ⟨k * f.a, k * f.b, k * f.c, if k < 0 then f.operator.reversed else f.operator⟩

/-- The operators agree, and so do the coefficients up to the tolerance. -/
structure Close (u v : LinearForm K) : Prop where
  operator : u.operator = v.operator
  a : |u.a - v.a| < tolerance
  b : |u.b - v.b| < tolerance
  c : |u.c - v.c| < tolerance

theorem Close.symm {u v : LinearForm K} (h : u.Close v) : v.Close u :=
  ⟨h.operator.symm, by rw [abs_sub_comm]; exact h.a, by rw [abs_sub_comm]; exact h.b,
    by rw [abs_sub_comm]; exact h.c⟩

/-- No point of the line is nearer to a point than `d`. -/
def Clears [Hypot K] (f : LinearForm K) (p : Point K) (d : K) : Prop :=
  ∀ q : Point K, f.evaluate q = 0 → d ≤ Hypot.hypot (p.x - q.x) (p.y - q.y)

theorem evaluate_negated (f : LinearForm K) (p : Point K) :
    f.negated.evaluate p = -f.evaluate p := by
  simp only [evaluate, negated]
  ring

theorem abs_evaluate_turned (f : LinearForm K) (p : Point K) :
    |f.turned.evaluate p| = |f.evaluate p| := by
  rcases f.turned_cases with turned | turned
  · rw [turned, evaluate_negated, abs_neg]
  · rw [turned]

variable [IsStrictOrderedRing K]

theorem holds_negated (f : LinearForm K) (p : Point K) : f.negated.Holds p ↔ f.Holds p := by
  unfold Holds
  rw [evaluate_negated]
  exact Operator.holds_reversed _ _

theorem holds_turned (f : LinearForm K) (p : Point K) : f.turned.Holds p ↔ f.Holds p := by
  rcases f.turned_cases with turned | turned
  · rw [turned, holds_negated]
  · rw [turned]

/-! ## Close forms -/

theorem Close.abs_sub_lt {u v : LinearForm K} (h : u.Close v) (p : Point K) :
    |u.evaluate p - v.evaluate p| < tolerance * (|p.x| + |p.y| + 1) := by
  have difference : u.evaluate p - v.evaluate p =
      (u.a - v.a) * p.x + (u.b - v.b) * p.y + (u.c - v.c) := by
    simp only [evaluate]
    ring
  have first : |(u.a - v.a) * p.x| ≤ tolerance * |p.x| := by
    rw [abs_mul]
    exact mul_le_mul_of_nonneg_right h.a.le (abs_nonneg _)
  have second : |(u.b - v.b) * p.y| ≤ tolerance * |p.y| := by
    rw [abs_mul]
    exact mul_le_mul_of_nonneg_right h.b.le (abs_nonneg _)
  calc |u.evaluate p - v.evaluate p|
      ≤ |(u.a - v.a) * p.x + (u.b - v.b) * p.y| + |u.c - v.c| := by
        rw [difference]
        exact abs_add_le _ _
    _ ≤ |(u.a - v.a) * p.x| + |(u.b - v.b) * p.y| + |u.c - v.c| := by
        gcongr
        exact abs_add_le _ _
    _ < tolerance * |p.x| + tolerance * |p.y| + tolerance :=
        add_lt_add_of_le_of_lt (add_le_add first second) h.c
    _ = tolerance * (|p.x| + |p.y| + 1) := by ring

theorem Close.holds_iff {u v : LinearForm K} (h : u.Close v) {p : Point K}
    (away : tolerance * (|p.x| + |p.y| + 1) ≤ |u.evaluate p|) : u.Holds p ↔ v.Holds p := by
  obtain ⟨positive, negative⟩ := pos_iff_of_abs_sub_lt ((h.abs_sub_lt p).trans_le away)
  unfold Holds
  rw [h.operator]
  exact Operator.holds_congr positive negative _

/-! ## Multiples -/

variable {f g : LinearForm K}

theorem times_unknowns {k : K} (hk : k ≠ 0) (hf : ¬ (f.a = 0 ∧ f.b = 0)) :
    ¬ ((f.times k).a = 0 ∧ (f.times k).b = 0) := by
  rintro ⟨a, b⟩
  exact hf ⟨(mul_eq_zero.1 a).resolve_left hk, (mul_eq_zero.1 b).resolve_left hk⟩

/-- A negative multiple is a positive one with everything on the other side. -/
theorem times_eq_negated {k : K} (hk : k < 0) (f : LinearForm K) :
    f.times k = (f.times (-k)).negated := by
  simp only [times, negated, if_pos hk, if_neg (neg_pos.2 hk).le.not_gt, neg_mul, neg_neg]

/-! ## Unit forms -/

variable [Hypot K] [EuclideanLength K]

/-- Two forms with a line count as the same when their unit forms are close. -/
theorem exists_sameAs (hf : ¬ (f.a = 0 ∧ f.b = 0)) (hg : ¬ (g.a = 0 ∧ g.b = 0)) :
    ∃ same, f.sameAs g = .ok same ∧ (same = true ↔ f.scaled.turned.Close g.scaled.turned) := by
  rw [sameAs, unitForm_eq (isZero_norm hf), unitForm_eq (isZero_norm hg)]
  refine ⟨_, rfl, ?_⟩
  simp only [Bool.and_eq_true, decide_eq_true_eq, negligible_iff]
  constructor
  · rintro ⟨⟨⟨operator, a⟩, b⟩, c⟩
    exact ⟨operator, a, b, c⟩
  · intro h
    exact ⟨⟨⟨h.operator, h.a⟩, h.b⟩, h.c⟩

theorem sameAs_comm (hf : ¬ (f.a = 0 ∧ f.b = 0)) (hg : ¬ (g.a = 0 ∧ g.b = 0)) :
    f.sameAs g = g.sameAs f := by
  obtain ⟨same, hsame, close⟩ := exists_sameAs hf hg
  obtain ⟨back, hback, closeBack⟩ := exists_sameAs hg hf
  have both : same = true ↔ back = true :=
    close.trans (Iff.trans ⟨Close.symm, Close.symm⟩ closeBack.symm)
  rw [hsame, hback, Bool.eq_iff_iff.2 both]

theorem hypot_mul_mul {k : K} (hk : 0 ≤ k) (x y : K) :
    Hypot.hypot (k * x) (k * y) = k * Hypot.hypot x y := by
  rw [hypot_eq_iff (mul_nonneg hk (hypot_nonneg x y))]
  linear_combination (-k * k) * hypot_mul_self x y

theorem scaled_times {k : K} (hk : 0 < k) (f : LinearForm K) : (f.times k).scaled = f.scaled := by
  simp only [times, scaled, if_neg hk.le.not_gt, hypot_mul_mul hk.le,
    mul_div_mul_left _ _ hk.ne']

/-- A form and its multiples have one unit form. -/
theorem unitForm_times (hf : ¬ (f.a = 0 ∧ f.b = 0)) {k : K} (hk : k ≠ 0) :
    (f.times k).unitForm = f.unitForm := by
  have positive : ∀ {k : K}, 0 < k → (f.times k).unitForm = f.unitForm := by
    intro k hk
    rw [unitForm_eq (isZero_norm (times_unknowns hk.ne' hf)), unitForm_eq (isZero_norm hf),
      scaled_times hk]
  rcases lt_or_gt_of_ne hk with neg | pos
  · have opposite : 0 < -k := neg_pos.2 neg
    rw [times_eq_negated neg, unitForm_negated (times_unknowns opposite.ne' hf), positive opposite]
  · exact positive pos

theorem norm_pos (hf : ¬ (f.a = 0 ∧ f.b = 0)) : 0 < Hypot.hypot f.a f.b :=
  lt_of_le_of_ne (hypot_nonneg _ _) (hypot_ne_zero hf).symm

omit [IsStrictOrderedRing K] [EuclideanLength K] in
theorem evaluate_scaled (f : LinearForm K) (p : Point K) :
    f.scaled.evaluate p = f.evaluate p / Hypot.hypot f.a f.b := by
  simp only [scaled, evaluate]
  ring

theorem holds_scaled (hf : ¬ (f.a = 0 ∧ f.b = 0)) (p : Point K) : f.scaled.Holds p ↔ f.Holds p := by
  have norm := norm_pos hf
  unfold Holds
  rw [evaluate_scaled]
  refine Operator.holds_congr (div_pos_iff_of_pos_right norm) ?_ _
  rw [div_lt_iff₀ norm, zero_mul]

/-! ## The distance from a line -/

/-- The point of the line that is nearest to `p`. -/
def foot (f : LinearForm K) (p : Point K) : Point K :=
  let t := f.evaluate p / (f.a * f.a + f.b * f.b)
  ⟨p.x - f.a * t, p.y - f.b * t⟩

omit [Hypot K] [EuclideanLength K] in
theorem evaluate_foot (hf : ¬ (f.a = 0 ∧ f.b = 0)) (p : Point K) : f.evaluate (f.foot p) = 0 := by
  have squares : f.a * f.a + f.b * f.b ≠ 0 := fun zero => hf (mul_self_add_mul_self_eq_zero.1 zero)
  calc f.evaluate (f.foot p)
      = f.evaluate p - f.evaluate p / (f.a * f.a + f.b * f.b) * (f.a * f.a + f.b * f.b) := by
        simp only [evaluate, foot]
        ring
    _ = 0 := by rw [div_mul_cancel₀ _ squares, sub_self]

/-- A point that clears the line is no nearer to it than its value says. -/
theorem Clears.le_abs_evaluate {p : Point K} {d : K} (h : f.Clears p d)
    (hf : ¬ (f.a = 0 ∧ f.b = 0)) : d ≤ |f.scaled.evaluate p| := by
  have norm := norm_pos hf
  have squares : Hypot.hypot f.a f.b * Hypot.hypot f.a f.b = f.a * f.a + f.b * f.b :=
    hypot_mul_self _ _
  have distance : Hypot.hypot (p.x - (f.foot p).x) (p.y - (f.foot p).y) =
      |f.scaled.evaluate p| := by
    rw [hypot_eq_iff (abs_nonneg _), abs_mul_abs_self, evaluate_scaled]
    simp only [foot, ← squares, sub_sub_cancel]
    field_simp
    linear_combination (-(f.evaluate p * f.evaluate p)) * squares
  rw [← distance]
  exact h _ (evaluate_foot hf p)

/-- Forms that count as the same say the same of every point that clears the line of one of
them. -/
theorem holds_iff_of_close (hf : ¬ (f.a = 0 ∧ f.b = 0)) (hg : ¬ (g.a = 0 ∧ g.b = 0))
    (close : f.scaled.turned.Close g.scaled.turned) {p : Point K}
    (away : f.Clears p (tolerance * (|p.x| + |p.y| + 1))) : f.Holds p ↔ g.Holds p := by
  have far := away.le_abs_evaluate hf
  rw [← abs_evaluate_turned] at far
  calc f.Holds p ↔ f.scaled.turned.Holds p := by rw [holds_turned, holds_scaled hf]
    _ ↔ g.scaled.turned.Holds p := close.holds_iff far
    _ ↔ g.Holds p := by rw [holds_turned, holds_scaled hg]

/-- Counting as the same is reflexive and symmetric on forms with a line, and does not tell a
form from its multiples. Of two forms that count as the same, one holds of a point if the other
does, unless the point is so near to the line that the tolerance reaches it. -/
theorem sameAs_same_solutions (hf : ¬ (f.a = 0 ∧ f.b = 0)) (hg : ¬ (g.a = 0 ∧ g.b = 0)) :
    f.sameAs f = .ok true ∧
      (∀ k : K, k ≠ 0 → f.sameAs (f.times k) = .ok true) ∧
      ∃ same, f.sameAs g = .ok same ∧ g.sameAs f = .ok same ∧
        (same = true → ∀ p : Point K, f.Clears p (tolerance * (|p.x| + |p.y| + 1)) →
          (f.Holds p ↔ g.Holds p)) := by
  have unit := unitForm_eq (isZero_norm hf)
  obtain ⟨same, hsame, close⟩ := exists_sameAs hf hg
  refine ⟨sameAs_of_unitForm unit unit, fun k hk => ?_, same, hsame, ?_, fun hs p away => ?_⟩
  · exact sameAs_of_unitForm unit ((unitForm_times hf hk).trans unit)
  · rw [sameAs_comm hg hf, hsame]
  · exact holds_iff_of_close hf hg (close.1 hs) away

/-- `3x + 4y >= 0` -/
noncomputable def slanted : LinearForm ℝ := ⟨3.0, 4.0, 0, .ge⟩

/-- Twice the slanted form, and a little more that the tolerance swallows. -/
noncomputable def nudged : LinearForm ℝ := ⟨6.0, 8.0, tolerance, .ge⟩

theorem turned_scaled (f : LinearForm ℝ) (norm : ℝ) (hn : 0 < norm)
    (length : f.a * f.a + f.b * f.b = norm * norm) (first : tolerance * norm ≤ f.a) :
    f.scaled.turned = ⟨f.a / norm, f.b / norm, f.c / norm, f.operator⟩ := by
  have scaled : f.scaled = ⟨f.a / norm, f.b / norm, f.c / norm, f.operator⟩ := by
    simp only [LinearForm.scaled, (hypot_eq_iff hn.le).2 length]
  have counts : tolerance ≤ f.a / norm := (le_div_iff₀ hn).2 first
  have lead : f.scaled.lead = f.a / norm := by
    rw [scaled, LinearForm.lead, Scalar.abs_eq, if_pos (counts.trans (le_abs_self _))]
  rw [turned, lead, decimal_zero, if_neg (tolerance_pos.le.trans counts).not_gt, scaled]

theorem slanted_close_nudged : slanted.scaled.turned.Close nudged.scaled.turned := by
  have positive := tolerance_pos (K := ℝ)
  rw [turned_scaled slanted 5 (by norm_num) (by norm_num [slanted])
      (by norm_num [slanted, tolerance]),
    turned_scaled nudged 10 (by norm_num) (by norm_num [nudged])
      (by norm_num [nudged, tolerance])]
  refine ⟨rfl, ?_, ?_, ?_⟩
  · norm_num [slanted, nudged, positive]
  · norm_num [slanted, nudged, positive]
  · simp only [slanted, nudged, zero_div, zero_sub, abs_neg]
    rw [abs_of_pos (by linarith)]
    linarith

/-- The point `(1, 1)` is well off the slanted line. -/
theorem slanted_clears : slanted.Clears ⟨1, 1⟩ (tolerance * (|1| + |1| + 1)) := by
  intro q on
  have small : tolerance * (|1| + |1| + 1) ≤ (1 : ℝ) := by
    norm_num [tolerance]
  have x := (le_abs_self _).trans (abs_left_le_hypot (1 - q.x) (1 - q.y))
  have y := (le_abs_self _).trans (abs_right_le_hypot (1 - q.x) (1 - q.y))
  simp only [evaluate, slanted] at on
  linarith

theorem slanted_sameAs_nudged :
    slanted.sameAs slanted = .ok true ∧ slanted.sameAs (slanted.times (-2)) = .ok true ∧
      slanted.sameAs nudged = .ok true ∧ nudged.sameAs slanted = .ok true ∧
      (slanted.Holds ⟨1, 1⟩ ↔ nudged.Holds ⟨1, 1⟩) := by
  have line : ¬ (slanted.a = 0 ∧ slanted.b = 0) := by norm_num [slanted]
  have line' : ¬ (nudged.a = 0 ∧ nudged.b = 0) := by norm_num [nudged]
  obtain ⟨itself, times, same, there, back, agree⟩ := sameAs_same_solutions line line'
  obtain ⟨_, found, close⟩ := exists_sameAs line line'
  have yes : same = true := by
    rw [there] at found
    cases found
    exact close.2 slanted_close_nudged
  rw [yes] at there back
  exact ⟨itself, times (-2) (by norm_num), there, back, agree yes ⟨1, 1⟩ slanted_clears⟩

end LinearForm
end Field
end HalfPlane
