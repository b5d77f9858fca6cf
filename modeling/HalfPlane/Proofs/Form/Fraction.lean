/-
The fraction that stands for a number is the nearest one with a denominator within the bound.

Two fractions are neighbours when their cross products differ by one. Between neighbours there are
only fractions whose denominators are at least the sum of theirs (`Neighbours.outside`). The
convergents that are followed stay neighbours on either side of the number (`Follows`), and so are
the two fractions compared at the end, the sum of whose denominators is beyond the bound. So nothing
within the bound is nearer than the nearer of them (`nearestFraction_nearest`).

A number is taken for zero if it is at most half of the smallest fraction in size, and its fraction
has its sign otherwise.
-/
import Mathlib.Algebra.Order.Field.Rat
import Mathlib.Data.Rat.Lemmas
import Mathlib.Tactic.FieldSimp
import Mathlib.Tactic.Linarith
import Mathlib.Tactic.LinearCombination
import Mathlib.Tactic.Positivity
import HalfPlane.Form.Latex

namespace HalfPlane

theorem den_mkRat_le (p : ℤ) {q : ℕ} (h : 0 < q) : (mkRat p q).den ≤ q := by
  rw [Rat.den_mkRat, if_neg h.ne']
  exact Nat.div_le_self _ _

theorem rat_abs_eq (q : ℚ) : q.abs = |q| := by
  unfold Rat.abs
  split
  · next nonneg => exact (abs_of_nonneg nonneg).symm
  · next neg => exact (abs_of_neg (not_le.1 neg)).symm

/-! ## Neighbours -/

/-- Fractions `p / q` and, below it, `m / n`, whose cross products differ by one. -/
structure Neighbours (p : ℤ) (q : ℕ) (m : ℤ) (n : ℕ) : Prop where
  upper : 0 < q
  lower : 0 < n
  unit : p * n - m * q = 1

namespace Neighbours
variable {p m : ℤ} {q n : ℕ}

theorem lt (h : Neighbours p q m n) : mkRat m n < mkRat p q := by
  have upper : (0 : ℚ) < q := by exact_mod_cast h.upper
  have lower : (0 : ℚ) < n := by exact_mod_cast h.lower
  have unit : (p * n - m * q : ℚ) = 1 := by exact_mod_cast h.unit
  rw [Rat.mkRat_eq_div, Rat.mkRat_eq_div, div_lt_div_iff₀ lower upper]
  linarith

/-- A fraction that is not outside them has a denominator of at least the sum of theirs. -/
theorem outside (h : Neighbours p q m n) {t : ℚ} (small : t.den < q + n) :
    t ≤ mkRat m n ∨ mkRat p q ≤ t := by
  have upper : (0 : ℚ) < q := by exact_mod_cast h.upper
  have lower : (0 : ℚ) < n := by exact_mod_cast h.lower
  have den : (0 : ℚ) < t.den := by exact_mod_cast t.den_pos
  by_contra between
  rw [not_or, not_le, not_le, Rat.mkRat_eq_div, Rat.mkRat_eq_div] at between
  obtain ⟨above, below⟩ := between
  rw [← Rat.num_div_den t, div_lt_div_iff₀ lower den] at above
  rw [← Rat.num_div_den t, div_lt_div_iff₀ den upper] at below
  have first : 1 ≤ t.num * n - m * t.den := by
    have strict : m * t.den < t.num * n := by exact_mod_cast above
    omega
  have second : 1 ≤ p * t.den - t.num * q := by
    have strict : t.num * q < p * t.den := by exact_mod_cast below
    omega
  have sum : (q : ℤ) * (t.num * n - m * t.den) + n * (p * t.den - t.num * q) = t.den := by
    linear_combination (t.den : ℤ) * h.unit
  have large : (q : ℤ) + n ≤ t.den := by
    rw [← sum]
    have left := mul_le_mul_of_nonneg_left first (Int.natCast_nonneg q)
    have right := mul_le_mul_of_nonneg_left second (Int.natCast_nonneg n)
    linarith
  omega

end Neighbours

/-- What lies as far above one number as below another, in weighted terms, lies between them. -/
theorem between_of_weights {r u v c e : ℚ} (hc : 0 < c) (he : 0 < e)
    (balanced : (r - u) * c = (v - r) * e) (order : v < u) : v ≤ r ∧ r ≤ u := by
  constructor
  · by_contra low
    have right : 0 < (v - r) * e := mul_pos (by linarith) he
    rw [← balanced] at right
    linarith [pos_of_mul_pos_left right hc.le]
  · by_contra high
    have left : 0 < (r - u) * c := mul_pos (by linarith) hc
    rw [balanced] at left
    linarith [pos_of_mul_pos_left left he.le]

/-! ## The convergents -/

namespace Convergents
variable {r : ℚ} {s : Convergents} {n d : ℕ}

/-- The fraction of the last convergent. -/
def last (s : Convergents) : ℚ := mkRat s.p₁ s.q₁

/-- The fraction of the one before. -/
def former (s : Convergents) : ℚ := mkRat s.p₀ s.q₀

/-- `k` steps on the way to the next convergent. -/
def next (s : Convergents) (k : ℕ) : Convergents :=
  ⟨s.p₁, s.q₁, s.p₀ + k * s.p₁, s.q₀ + k * s.q₁⟩

theorem follow_eq (bound : ℕ) (s : Convergents) (n d : ℕ) :
    follow bound s n d =
      if d = 0 ∨ bound < (s.next (n / d)).q₁ then s
      else follow bound (s.next (n / d)) d (n % d) := by
  rw [follow]
  by_cases zero : d = 0
  · simp [zero]
  · simp only [zero, dite_false, false_or]
    rfl

/-- Two convergents whose cross products differ by one, and between them a number, weighted by `n`
and `d`. -/
structure Straddles (r : ℚ) (s : Convergents) (n d : ℕ) : Prop where
  unit : s.p₁ * s.q₀ - s.p₀ * s.q₁ = 1 ∨ s.p₀ * s.q₁ - s.p₁ * s.q₀ = 1
  value : r * (s.q₁ * n + s.q₀ * d) = s.p₁ * n + s.p₀ * d

namespace Straddles

/-- The steps shift weight to the last convergent. -/
theorem next (h : Straddles r s n d) {k : ℕ} (enough : k * d ≤ n) :
    Straddles r (s.next k) d (n - k * d) where
  unit := by
    simp only [Convergents.next]
    push_cast
    refine h.unit.symm.imp (fun unit => ?_) fun unit => ?_ <;> linear_combination unit
  value := by
    simp only [Convergents.next]
    push_cast [enough]
    linear_combination h.value

theorem between (h : Straddles r s n d) (hn : 0 < n) (hd : 0 < d) (h₀ : 0 < s.q₀)
    (h₁ : 0 < s.q₁) :
    Neighbours s.p₁ s.q₁ s.p₀ s.q₀ ∧ s.former ≤ r ∧ r ≤ s.last ∨
      Neighbours s.p₀ s.q₀ s.p₁ s.q₁ ∧ s.last ≤ r ∧ r ≤ s.former := by
  have weight₁ : (0 : ℚ) < s.q₁ * n := by positivity
  have weight₀ : (0 : ℚ) < s.q₀ * d := by positivity
  have last : s.last * s.q₁ = s.p₁ := by
    rw [Convergents.last, Rat.mkRat_eq_div, div_mul_cancel₀ _ (by positivity)]
  have former : s.former * s.q₀ = s.p₀ := by
    rw [Convergents.former, Rat.mkRat_eq_div, div_mul_cancel₀ _ (by positivity)]
  have value := h.value
  rcases h.unit with unit | unit
  · have neighbours : Neighbours s.p₁ s.q₁ s.p₀ s.q₀ := ⟨h₁, h₀, unit⟩
    refine .inl ⟨neighbours, between_of_weights weight₁ weight₀ ?_ neighbours.lt⟩
    linear_combination value - n * last - d * former
  · have neighbours : Neighbours s.p₀ s.q₀ s.p₁ s.q₁ := ⟨h₀, h₁, unit⟩
    refine .inr ⟨neighbours, between_of_weights weight₀ weight₁ ?_ neighbours.lt⟩
    linear_combination value - n * last - d * former

/-- Of the fractions with smaller denominators than the sum of theirs, none is nearer. -/
theorem nearest (h : Straddles r s n d) (hn : 0 < n) (hd : 0 < d) (h₀ : 0 < s.q₀)
    (h₁ : 0 < s.q₁) {t : ℚ} (small : t.den < s.q₀ + s.q₁) :
    |s.last - r| ≤ |t - r| ∨ |s.former - r| ≤ |t - r| := by
  have below {u : ℚ} (low : t ≤ u) (high : u ≤ r) : |u - r| ≤ |t - r| := by
    rw [abs_sub_comm, abs_sub_comm t, abs_of_nonneg (by linarith), abs_of_nonneg (by linarith)]
    linarith
  have above {u : ℚ} (low : r ≤ u) (high : u ≤ t) : |u - r| ≤ |t - r| := by
    rw [abs_of_nonneg (by linarith), abs_of_nonneg (by linarith)]
    linarith
  rcases h.between hn hd h₀ h₁ with ⟨neighbours, low, high⟩ | ⟨neighbours, low, high⟩
  · rcases neighbours.outside (t := t) (by omega) with outside | outside
    · exact .inr (below outside low)
    · exact .inl (above high outside)
  · rcases neighbours.outside small with outside | outside
    · exact .inl (below outside low)
    · exact .inr (above high outside)

end Straddles

/-- Convergents on the way to a number within a bound, of which `n / d` is left. -/
structure Follows (bound : ℕ) (r : ℚ) (s : Convergents) (n d : ℕ) : Prop where
  straddles : Straddles r s n d
  rest : d < n
  positive : 0 < s.q₁
  former : s.q₀ ≤ bound
  last : s.q₁ ≤ bound

theorem Follows.next {bound : ℕ} (h : Follows bound r s n d) (more : 0 < d)
    (within : (s.next (n / d)).q₁ ≤ bound) :
    Follows bound r (s.next (n / d)) d (n % d) where
  straddles := by
    have rest : n - n / d * d = n % d := by
      rw [Nat.mod_eq_sub_div_mul]
    rw [← rest]
    exact h.straddles.next (Nat.div_mul_le_self n d)
  rest := Nat.mod_lt n more
  positive := Nat.add_pos_right _ (Nat.mul_pos (Nat.div_pos h.rest.le more) h.positive)
  former := h.last
  last := within

/-- They are followed until nothing is left or the next one is beyond the bound. -/
theorem Follows.follow {bound : ℕ} (h : Follows bound r s n d) :
    ∃ n' d' : ℕ, Follows bound r (Convergents.follow bound s n d) n' d' ∧
      (d' = 0 ∨ bound < ((Convergents.follow bound s n d).next (n' / d')).q₁) := by
  induction d using Nat.strong_induction_on generalizing s n with
  | _ d ih =>
    rw [follow_eq]
    split
    · next stop => exact ⟨n, d, h, stop⟩
    · next go =>
      obtain ⟨more, within⟩ := not_or.1 go
      have pos : 0 < d := Nat.pos_of_ne_zero more
      exact ih (n % d) (Nat.mod_lt n pos) (h.next pos (not_lt.1 within))

/-! ## The end of the way -/

/-- How many steps are within the bound. -/
def steps (bound : ℕ) (s : Convergents) : ℕ := (bound - s.q₀) / s.q₁

/-- The nearer one of the last convergent and of the last fraction within the bound on the way to
the next one. -/
def nearer (bound : ℕ) (r : ℚ) (s : Convergents) : ℚ :=
  if |s.last - r| ≤ |(s.next (s.steps bound)).last - r| then s.last
  else (s.next (s.steps bound)).last

theorem abs_nearer_le (bound : ℕ) (r : ℚ) (s : Convergents) :
    |s.nearer bound r - r| ≤ |s.last - r| ∧
      |s.nearer bound r - r| ≤ |(s.next (s.steps bound)).last - r| := by
  unfold nearer
  split
  · next closer => exact ⟨le_rfl, closer⟩
  · next farther => exact ⟨(not_le.1 farther).le, le_rfl⟩

namespace Follows
variable {bound : ℕ}

theorem steps_within (h : Follows bound r s n d) : (s.next (s.steps bound)).q₁ ≤ bound := by
  have steps := Nat.div_mul_le_self (bound - s.q₀) s.q₁
  have former := h.former
  show s.q₀ + (bound - s.q₀) / s.q₁ * s.q₁ ≤ bound
  omega

theorem lt_steps (h : Follows bound r s n d) : bound < (s.next (s.steps bound)).q₁ + s.q₁ := by
  have steps := Nat.lt_mul_div_succ (bound - s.q₀) h.positive
  rw [Nat.mul_succ, Nat.mul_comm] at steps
  show bound < s.q₀ + (bound - s.q₀) / s.q₁ * s.q₁ + s.q₁
  omega

/-- Not all of the way to the next convergent is within the bound. -/
theorem steps_mul_lt (h : Follows bound r s n d) (more : 0 < d)
    (stop : bound < (s.next (n / d)).q₁) : s.steps bound * d < n := by
  have fewer : s.steps bound < n / d := by
    by_contra all
    have within := h.steps_within
    have mul := Nat.mul_le_mul_right s.q₁ (not_lt.1 all)
    simp only [Convergents.next] at within stop
    omega
  calc s.steps bound * d < n / d * d := Nat.mul_lt_mul_of_pos_right fewer more
    _ ≤ n := Nat.div_mul_le_self n d

theorem den_nearer_le (h : Follows bound r s n d) : (s.nearer bound r).den ≤ bound := by
  unfold nearer
  split
  · exact (den_mkRat_le _ h.positive).trans h.last
  · have positive : 0 < (s.next (s.steps bound)).q₁ := by
      have far := h.lt_steps
      have last := h.last
      omega
    exact (den_mkRat_le _ positive).trans h.steps_within

/-- If something is left beyond the bound, nothing within it is nearer. -/
theorem nearest (h : Follows bound r s n d) (more : 0 < d) (stop : bound < (s.next (n / d)).q₁)
    {t : ℚ} (within : t.den ≤ bound) : |s.nearer bound r - r| ≤ |t - r| := by
  have left := h.steps_mul_lt more stop
  have far := h.lt_steps
  have last := h.last
  obtain ⟨convergent, between⟩ := abs_nearer_le bound r s
  rcases (h.straddles.next left.le).nearest more (Nat.sub_pos_of_lt left) h.positive (by omega)
    (t := t) (by simp only [Convergents.next] at far ⊢; omega) with near | near
  · exact between.trans near
  · exact convergent.trans near

/-- If nothing is left, the number is the last convergent. -/
theorem eq_last (h : Follows bound r s n 0) : r = s.last := by
  have rest : (0 : ℚ) < n := by exact_mod_cast h.rest
  have positive : (0 : ℚ) < s.q₁ := by exact_mod_cast h.positive
  have value := h.straddles.value
  rw [Nat.cast_zero, mul_zero, mul_zero, add_zero, add_zero, ← mul_assoc] at value
  rw [Convergents.last, Rat.mkRat_eq_div, eq_div_iff positive.ne']
  exact mul_right_cancel₀ rest.ne' value

end Follows
end Convergents

/-! ## The nearest fraction -/

section Nearest
variable {bound : ℕ} {r : ℚ}

/-- The convergents after the first step. -/
def firstConvergents (r : ℚ) : Convergents := ⟨1, 0, r.num / r.den, 1⟩

theorem follow_start (pos : 0 < bound) (r : ℚ) :
    Convergents.follow bound ⟨0, 1, 1, 0⟩ r.num r.den =
      Convergents.follow bound (firstConvergents r) r.den (r.num % r.den).toNat := by
  have within : ¬ bound < 1 := by omega
  rw [Convergents.follow]
  simp only [r.den_nz, dite_false, mul_zero, add_zero, mul_one, zero_add, if_neg within]
  rfl

theorem firstConvergents_follows (pos : 0 < bound) (r : ℚ) :
    Convergents.Follows bound r (firstConvergents r) r.den (r.num % r.den).toNat := by
  have den : (0 : ℤ) < r.den := by exact_mod_cast r.den_pos
  have left : ((r.num % r.den).toNat : ℤ) = r.num % r.den :=
    Int.toNat_of_nonneg (Int.emod_nonneg _ den.ne')
  have rest : r.num % r.den < r.den := Int.emod_lt_of_pos _ den
  refine ⟨⟨.inr (by simp [firstConvergents]), ?_⟩, by omega, one_pos, bound.zero_le, pos⟩
  have split : r.num / r.den * r.den + (r.num % r.den).toNat = r.num := by
    rw [left, Int.ediv_mul_add_emod]
  have cast : ((r.num / r.den : ℤ) * r.den + (r.num % r.den).toNat : ℚ) = r.num := by
    exact_mod_cast split
  have whole : r * r.den = r.num := Rat.mul_den_eq_num r
  simp only [firstConvergents]
  push_cast
  linear_combination whole - cast

theorem nearestFraction_eq_nearer (pos : 0 < bound) (beyond : bound < r.den) :
    nearestFraction bound r = (Convergents.follow bound (firstConvergents r) r.den
      (r.num % r.den).toNat).nearer bound r := by
  rw [nearestFraction, if_neg (not_le.2 beyond), follow_start pos]
  simp only [rat_abs_eq]
  rfl

/-- The fraction that is taken has a denominator within the bound, and no fraction with such a
denominator is nearer. -/
theorem nearestFraction_nearest (pos : 0 < bound) (r : ℚ) :
    (nearestFraction bound r).den ≤ bound ∧
      ∀ t : ℚ, t.den ≤ bound → |nearestFraction bound r - r| ≤ |t - r| := by
  by_cases beyond : bound < r.den
  · rw [nearestFraction_eq_nearer pos beyond]
    obtain ⟨n, d, h, stop⟩ := (firstConvergents_follows pos r).follow
    refine ⟨h.den_nearer_le, fun t within => ?_⟩
    rcases Nat.eq_zero_or_pos d with rfl | more
    · -- The number would be a fraction within the bound itself.
      have whole := congrArg Rat.den h.eq_last
      have small := den_mkRat_le (Convergents.follow bound (firstConvergents r) r.den
        (r.num % r.den).toNat).p₁ h.positive
      have last := h.last
      unfold Convergents.last at whole
      omega
    · exact h.nearest more (stop.resolve_left more.ne') within
  · rw [nearestFraction, if_pos (not_lt.1 beyond)]
    refine ⟨not_lt.1 beyond, fun t _ => ?_⟩
    rw [sub_self, abs_zero]
    exact abs_nonneg _

/-! ## Its sign -/

theorem nearestFraction_eq_zero (pos : 0 < bound) (small : |r| < 1 / (2 * bound)) :
    nearestFraction bound r = 0 := by
  obtain ⟨within, nearest⟩ := nearestFraction_nearest pos r
  have near := nearest 0 pos
  generalize nearestFraction bound r = t at within near
  rw [zero_sub, abs_neg] at near
  by_contra nonzero
  -- Any other fraction within the bound is at least twice as large.
  have den : (t.den : ℚ) ≤ bound := by exact_mod_cast within
  have least : 1 ≤ |t| * t.den := by
    have num : |t| * t.den = |(t.num : ℚ)| := by
      rw [← Rat.mul_den_eq_num t, abs_mul, Nat.abs_cast]
    rw [num]
    exact_mod_cast Int.one_le_abs (Rat.num_ne_zero.2 nonzero)
  have size : |t| < 1 / bound := by
    have half : (1 / bound : ℚ) = 2 * (1 / (2 * bound)) := by field_simp
    have sum := abs_sub_abs_le_abs_sub t r
    linarith
  have product : |t| * bound < 1 := (lt_div_iff₀ (by exact_mod_cast pos)).1 size
  have larger := mul_le_mul_of_nonneg_left den (abs_nonneg t)
  linarith

theorem den_unitFraction_le (pos : 0 < bound) :
    (1 / bound : ℚ).den ≤ bound ∧ (-(1 / bound) : ℚ).den ≤ bound := by
  have unit : (1 / bound : ℚ).den ≤ bound := by
    have den := den_mkRat_le 1 pos
    rwa [Rat.mkRat_eq_div, Int.cast_one] at den
  exact ⟨unit, by rwa [Rat.neg_den]⟩

theorem nearestFraction_pos (pos : 0 < bound) (large : 1 / (2 * bound) < r) :
    0 < nearestFraction bound r := by
  have near := (nearestFraction_nearest pos r).2 _ (den_unitFraction_le pos).1
  have half : (1 / bound : ℚ) = 2 * (1 / (2 * bound)) := by field_simp
  have unit : (0 : ℚ) < 1 / bound := by positivity
  have closer : |(1 / bound : ℚ) - r| < r := by
    rw [abs_lt]
    constructor <;> linarith
  linarith [(abs_lt.1 (near.trans_lt closer)).1]

theorem nearestFraction_neg (pos : 0 < bound) (large : r < -(1 / (2 * bound))) :
    nearestFraction bound r < 0 := by
  have near := (nearestFraction_nearest pos r).2 _ (den_unitFraction_le pos).2
  have half : (1 / bound : ℚ) = 2 * (1 / (2 * bound)) := by field_simp
  have unit : (0 : ℚ) < 1 / bound := by positivity
  have closer : |-(1 / bound : ℚ) - r| < -r := by
    rw [abs_lt]
    constructor <;> linarith
  linarith [(abs_lt.1 (near.trans_lt closer)).2]

end Nearest

namespace LinearForm

/-- Half of the smallest fraction. -/
def leastShown : ℚ := 1 / 2000000

theorem leastShown_pos : 0 < leastShown := by decide +kernel

theorem nearestFraction_leastShown : nearestFraction denominatorBound leastShown = 0 ∧
    nearestFraction denominatorBound (-leastShown) = 0 := by
  decide +kernel

/-- What is left of a number: nothing up to half of the smallest fraction, and otherwise its sign. -/
theorem nearestFraction_sign (r : ℚ) :
    (nearestFraction denominatorBound r = 0 ↔ |r| ≤ leastShown) ∧
      (nearestFraction denominatorBound r < 0 ↔ r < -leastShown) := by
  have pos : 0 < denominatorBound := by decide
  have least : leastShown = 1 / (2 * denominatorBound) := by
    norm_num [leastShown, denominatorBound]
  have gone (zero : nearestFraction denominatorBound r = 0) (small : |r| ≤ leastShown) :
      (nearestFraction denominatorBound r = 0 ↔ |r| ≤ leastShown) ∧
        (nearestFraction denominatorBound r < 0 ↔ r < -leastShown) :=
    ⟨iff_of_true zero small, iff_of_false zero.ge.not_gt (abs_le.1 small).1.not_gt⟩
  rcases lt_trichotomy |r| leastShown with small | tie | large
  · exact gone (nearestFraction_eq_zero pos (least ▸ small)) small.le
  · refine gone ?_ tie.le
    rcases (abs_eq leastShown_pos.le).1 tie with rfl | rfl
    · exact nearestFraction_leastShown.1
    · exact nearestFraction_leastShown.2
  · rcases lt_abs.1 large with above | below
    · have positive := nearestFraction_pos pos (least ▸ above)
      exact ⟨iff_of_false positive.ne' large.not_ge, iff_of_false positive.le.not_gt
        (by linarith [leastShown_pos])⟩
    · have negative := nearestFraction_neg pos (r := r) (by linarith)
      exact ⟨iff_of_false negative.ne large.not_ge, iff_of_true negative (by linarith)⟩

end LinearForm
end HalfPlane
