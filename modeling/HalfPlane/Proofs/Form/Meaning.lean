/-
What a formula says of a point, and that its form says the same.

Over an ordered field a formula compares two sums, and moving everything to the left side
compares their difference with zero (`Formula.holds_iff`). In whichever shape a formula is
met, its form has the coefficients collected from all its terms (`collectedForm?`). So
the order of the terms of a side does not matter, and when the sides change places the form
is the negated one (`negated`), which has the same solutions.
-/
import Mathlib.Algebra.BigOperators.Group.List.Basic
import Mathlib.Tactic.Ring
import HalfPlane.Proofs.Form.Shapes
import HalfPlane.Proofs.Form.Unit
import HalfPlane.Proofs.Formula.Reading
import HalfPlane.Form.Canonical

namespace HalfPlane
open Scalar
open Formula (Literal Unknown Comparison)

/-! ## Sums of terms -/

section Meaning
variable {K : Type} [Field K]

namespace Term

def value (p : Point K) (t : Term K) : K :=
  match t.unknown with
  | none => t.coefficient
  | some .x => t.coefficient * p.x
  | some .y => t.coefficient * p.y

/-- What a term has of one unknown, or of the constant. -/
def part (unknown : Option Unknown) (t : Term K) : K :=
  if t.unknown = unknown then t.coefficient else 0

def total (unknown : Option Unknown) (terms : List (Term K)) : K := (terms.map (part unknown)).sum

theorem value_eq_parts (p : Point K) (t : Term K) :
    t.value p = t.part (some .x) * p.x + t.part (some .y) * p.y + t.part none := by
  obtain ⟨_ | _ | _, c⟩ := t <;> simp [value, part]

theorem total_append (unknown : Option Unknown) (ts us : List (Term K)) :
    total unknown (ts ++ us) = total unknown ts + total unknown us := by
  simp [total]

theorem total_perm {terms terms' : List (Term K)} (h : terms.Perm terms')
    (unknown : Option Unknown) : total unknown terms = total unknown terms' :=
  (h.map _).sum_eq

end Term

def Formula.sideValue (p : Point K) (side : List (Term K)) : K := (side.map (Term.value p)).sum

theorem Formula.sideValue_eq_totals (p : Point K) (side : List (Term K)) :
    sideValue p side =
      Term.total (some .x) side * p.x + Term.total (some .y) side * p.y + Term.total none side := by
  induction side with
  | nil => simp [sideValue, Term.total]
  | cons t side ih =>
    simp only [sideValue, Term.total, List.map_cons, List.sum_cons] at ih ⊢
    rw [ih, t.value_eq_parts p]
    ring

theorem Formula.Literal.value_eq [LinearOrder K] [IsStrictOrderedRing K] (l : Literal) :
    (l.value : K) = Text.digitsValue (l.whole ++ l.places) / 10 ^ l.places.length :=
  ofScientific_eq _ _

/-! ## What a formula and a form say -/

variable [LinearOrder K]

def Formula.Comparison.Holds : Comparison → K → K → Prop
  | .lt, u, v => u < v
  | .le, u, v => u ≤ v
  | .gt, u, v => v < u
  | .ge, u, v => v ≤ u
  | .eq, u, v => u = v
  | .ne, u, v => u ≠ v

/-- The comparison of two sides after they changed places. -/
def Formula.Comparison.reversed : Comparison → Comparison
  | .lt => .gt
  | .le => .ge
  | .gt => .lt
  | .ge => .le
  | .eq => .eq
  | .ne => .ne

def Formula.Holds (f : Formula K) (p : Point K) : Prop :=
  f.comparison.Holds (sideValue p f.left) (sideValue p f.right)

def Operator.Holds : Operator → K → Prop
  | .lt, v => v < 0
  | .le, v => v ≤ 0
  | .gt, v => 0 < v
  | .ge, v => 0 ≤ v
  | .eq, v => v = 0

namespace LinearForm

def Holds (f : LinearForm K) (p : Point K) : Prop := f.operator.Holds (f.evaluate p)

/-! ## Collecting terms -/

theorem collect_eq_total (unknown : Option Unknown) (factor : K) (terms : List (Term K)) :
    ∀ sum : K, collect unknown factor sum terms = sum + factor * Term.total unknown terms := by
  induction terms with
  | nil => intro sum; simp [collect, Term.total]
  | cons t terms ih =>
    intro sum
    have step : collect unknown factor sum (t :: terms) =
        collect unknown factor (sum + factor * t.part unknown) terms := by
      simp only [collect, List.foldl_cons, Term.part]
      split
      · rfl
      · rw [mul_zero, add_zero]
    rw [step, ih]
    simp only [Term.total, List.map_cons, List.sum_cons]
    ring

variable [IsStrictOrderedRing K]

theorem collected_eq_totals (unknown : Option Unknown) (f : Formula K) :
    collected unknown f = Term.total unknown f.left - Term.total unknown f.right := by
  rw [collected, collect_eq_total, collect_eq_total, decimal_zero, decimal_one]
  ring

end LinearForm

variable [IsStrictOrderedRing K]

/-- A formula compares the difference of its sides with zero. -/
theorem Formula.holds_iff {f : Formula K} {o : Operator} (h : f.comparison.operator? = some o)
    (p : Point K) :
    f.Holds p ↔
      LinearForm.Holds ⟨LinearForm.collected (some .x) f, LinearForm.collected (some .y) f,
        LinearForm.collected none f, o⟩ p := by
  have difference : sideValue p f.left - sideValue p f.right =
      LinearForm.collected (some .x) f * p.x + LinearForm.collected (some .y) f * p.y +
        LinearForm.collected none f := by
    simp only [LinearForm.collected_eq_totals, sideValue_eq_totals]
    ring
  rw [Holds, LinearForm.Holds, LinearForm.evaluate, ← difference]
  obtain ⟨left, comparison, right⟩ := f
  cases comparison <;> cases h
  · exact sub_neg.symm
  · exact sub_nonpos.symm
  · exact sub_pos.symm
  · exact sub_nonneg.symm
  · exact sub_eq_zero.symm

/-! ## The form of every shape -/

instance : LawfulUnits K where
  one_mul x := by rw [decimal_one, one_mul]
  neg_one_mul x := by rw [decimal_one, neg_one_mul]
  zero_add x := by rw [decimal_zero, zero_add]; exact .refl x
  add_zero x z zero := by rw [(isZero_iff_eq z).1 zero, add_zero]; exact .refl x
  isZero_zero := (isZero_iff_eq _).2 decimal_zero
  isZero_neg zero := by rwa [isZero_iff_eq, neg_eq_zero, ← isZero_iff_eq]
  negligible_of_isZero zero := by
    rw [negligible_iff, (isZero_iff_eq _).1 zero, abs_zero]
    exact tolerance_pos
  eq_one_of_same same := (same_iff _ _).1 same

namespace LinearForm

/-- The form with the coefficients collected from all terms. -/
def collectedForm? (f : Formula K) : Option (LinearForm K) :=
  ofCoefficients? (collected (some .x) f) (collected (some .y) f) (collected none f) f.comparison

/-! ## Coefficients that count -/

/-- A coefficient that settling leaves alone: zero, or too large for noise. -/
def Counted (v : K) : Prop := v = 0 ∨ tolerance ≤ |v|

theorem Counted.settled {v : K} (h : Counted v) : settled v = v := by
  unfold LinearForm.settled
  rw [decimal_zero, add_zero]
  split
  · next noise =>
    have small := (negligible_iff v).1 noise
    exact (h.resolve_right (not_le.2 small)).symm
  · rfl

theorem counted_settled (v : K) : Counted (settled v) := by
  unfold settled
  rw [decimal_zero, add_zero]
  split
  · exact .inl rfl
  · next counts => exact .inr (not_lt.1 fun small => counts ((negligible_iff v).2 small))

theorem ofCoefficients?_eq {a b c : K} {comparison : Comparison} {o : Operator}
    (ha : Counted a) (hb : Counted b) (hc : Counted c) (unknowns : ¬ (a = 0 ∧ b = 0))
    (h : comparison.operator? = some o) :
    ofCoefficients? a b c comparison = some ⟨a, b, c, o⟩ := by
  have line : ¬ (isZero a && isZero b) = true := by
    rwa [Bool.and_eq_true, isZero_iff_eq, isZero_iff_eq]
  simp only [ofCoefficients?, h, ha.settled, hb.settled, hc.settled]
  rw [if_neg line]

end LinearForm

namespace Formula
open LinearForm

/-- Every collected coefficient counts or vanishes, and those of the unknowns do not both
vanish. -/
structure Clear (f : Formula K) : Prop where
  counted : ∀ unknown, Counted (collected unknown f)
  unknowns : ¬ (collected (some .x) f = 0 ∧ collected (some .y) f = 0)

theorem Clear.collectedForm? {f : Formula K} (h : f.Clear) {o : Operator}
    (operator : f.comparison.operator? = some o) :
    collectedForm? f =
      some ⟨collected (some .x) f, collected (some .y) f, collected none f, o⟩ :=
  ofCoefficients?_eq (h.counted _) (h.counted _) (h.counted _) h.unknowns operator

/-! ## Terms and sides in another order -/

/-- The terms of each side stand in another order. -/
structure Reordered (f f' : Formula K) : Prop where
  left : f.left.Perm f'.left
  comparison : f.comparison = f'.comparison
  right : f.right.Perm f'.right

/-- The sides have changed places, and the comparison was turned round. -/
structure Exchanged (f f' : Formula K) : Prop where
  left : f.left.Perm f'.right
  comparison : f'.comparison = f.comparison.reversed
  right : f.right.Perm f'.left

variable {f f' : Formula K}

theorem Reordered.collected_eq (h : Reordered f f') (unknown : Option Unknown) :
    collected unknown f' = collected unknown f := by
  rw [collected_eq_totals, collected_eq_totals, Term.total_perm h.left, Term.total_perm h.right]

theorem Reordered.collectedForm? (h : Reordered f f') :
    LinearForm.collectedForm? f' = LinearForm.collectedForm? f := by
  simp only [LinearForm.collectedForm?, h.collected_eq, h.comparison]

theorem Exchanged.collected_eq (h : Exchanged f f') (unknown : Option Unknown) :
    collected unknown f' = -collected unknown f := by
  rw [collected_eq_totals, collected_eq_totals, Term.total_perm h.left, Term.total_perm h.right,
    neg_sub]

theorem Exchanged.clear (h : Exchanged f f') (clear : f.Clear) : f'.Clear where
  counted unknown := by
    rw [h.collected_eq, Counted, neg_eq_zero, abs_neg]
    exact clear.counted unknown
  unknowns := by
    rw [h.collected_eq, h.collected_eq, neg_eq_zero, neg_eq_zero]
    exact clear.unknowns

theorem Comparison.operator?_reversed {c : Comparison} {o : Operator}
    (h : c.operator? = some o) : c.reversed.operator? = some o.reversed := by
  cases c <;> cases h <;> rfl

theorem Comparison.exists_operator {c : Comparison} (h : c ≠ .ne) : ∃ o, c.operator? = some o := by
  cases c <;> first | exact ⟨_, rfl⟩ | exact absurd rfl h

theorem Exchanged.collectedForm? (h : Exchanged f f') (clear : f.Clear) {form : LinearForm K}
    (read : LinearForm.collectedForm? f = some form) (compares : f.comparison ≠ .ne) :
    LinearForm.collectedForm? f' = some form.negated := by
  obtain ⟨o, operator⟩ := Comparison.exists_operator compares
  rw [clear.collectedForm? operator] at read
  cases read
  have turned : f'.comparison.operator? = some o.reversed := by
    rw [h.comparison]
    exact Comparison.operator?_reversed operator
  rw [(h.clear clear).collectedForm? turned]
  simp only [h.collected_eq, negated]

end Formula
end Meaning
end HalfPlane
