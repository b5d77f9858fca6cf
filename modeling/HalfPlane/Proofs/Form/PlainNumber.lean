/-
What a rational coefficient is after it was written out and read again.

What is written of a magnitude is an integer or twelve places. So the literal is off by less than
the tolerance, and it is not off at all if the magnitude is neat: if it has no more than twelve
places and is no integer with noise (`Neat`). A magnitude that counts is written as one that
counts (`exists_literal`), so the coefficient keeps its sign (`Kept`).
-/
import HalfPlane.Form.Plain
import HalfPlane.Proofs.Decimal.Fixed

namespace HalfPlane
open Scalar Formula

/-! ## Rational scalars -/

/-- A rational is its own exact value. -/
instance : Exact ℚ := ⟨fun q => .finite (q < 0) |q|⟩

section Rational

theorem nearest?_eq (q : ℚ) : nearest? q = .ok (nearestInteger q) := by
  have value : (if decide (q < 0) = true then -|q| else |q|) = q := by
    split
    · next neg => rw [abs_of_neg (of_decide_eq_true neg), neg_neg]
    · next nonneg => rw [abs_of_nonneg (not_lt.1 fun neg => nonneg (decide_eq_true neg))]
  show (Except.ok (nearestInteger (if decide (q < 0) = true then -|q| else |q|)) : Except Fault ℤ) =
    _
  rw [value]

theorem fixedText_eq {q : ℚ} (h : 0 ≤ q) (places : Nat) :
    fixedText places q = Decimal.fixed places q := by
  have positive : decide (q < 0) = false := decide_eq_false h.not_gt
  show (if decide (q < 0) = true then "-" else "") ++ Decimal.fixed places |q| = _
  rw [positive, abs_of_nonneg h]
  simp

end Rational

/-! ## Numbers that are kept -/

/-- A number of at most twelve places that is an integer or clear of all integers. -/
structure Neat (v : ℚ) : Prop where
  places : ∃ n : ℤ, v = n / 10 ^ 12
  clear : (∃ n : ℤ, v = n) ∨ ∀ n : ℤ, tolerance ≤ |v - n|

/-- What becomes of a coefficient: it stays zero or keeps its sign, and is off by less than the
tolerance, or not at all if it is neat. -/
structure Kept (v w : ℚ) : Prop where
  zero : w = 0 ↔ v = 0
  positive : 0 < w ↔ 0 < v
  close : |w - v| < tolerance
  neat : Neat v → w = v

/-- What a positive number stands for. -/
structure Stands (w m : ℚ) : Prop where
  counts : tolerance ≤ w
  close : |w - m| < tolerance
  neat : Neat m → w = m

/-- An integer within the tolerance of a neat number is that number. -/
theorem Neat.eq_of_close {v : ℚ} (h : Neat v) {n : ℤ} (close : |v - n| < tolerance) :
    (n : ℚ) = v := by
  rcases h.clear with ⟨m, rfl⟩ | clear
  · have near : |((m - n : ℤ) : ℚ)| < ((1 : ℤ) : ℚ) := by
      push_cast
      exact close.trans_le tolerance_le_one
    rw [← Int.cast_abs, Int.cast_lt, Int.abs_lt_one_iff] at near
    rw [sub_eq_zero.1 near]
  · exact absurd close (not_lt.2 (clear n))

theorem Neat.neg {v : ℚ} (h : Neat v) : Neat (-v) where
  places := by
    obtain ⟨n, rfl⟩ := h.places
    exact ⟨-n, by push_cast; ring⟩
  clear := by
    rcases h.clear with ⟨n, rfl⟩ | clear
    · exact .inl ⟨-n, by push_cast; ring⟩
    · refine .inr fun n => ?_
      have opposite : |-v - n| = |v - ((-n : ℤ) : ℚ)| := by
        rw [← abs_neg]
        push_cast
        ring_nf
      rw [opposite]
      exact clear _

theorem Stands.kept {w m : ℚ} (h : Stands w m) (counts : tolerance ≤ m) : Kept m w where
  zero := iff_of_false (tolerance_pos.trans_le h.counts).ne' (tolerance_pos.trans_le counts).ne'
  positive := iff_of_true (tolerance_pos.trans_le h.counts) (tolerance_pos.trans_le counts)
  close := h.close
  neat := h.neat

theorem Kept.refl (v : ℚ) : Kept v v where
  zero := .rfl
  positive := .rfl
  close := by
    rw [sub_self, abs_zero]
    exact tolerance_pos
  neat _ := rfl

theorem Kept.neg {v w : ℚ} (h : Kept v w) : Kept (-v) (-w) where
  zero := by rw [neg_eq_zero, neg_eq_zero, h.zero]
  positive := by
    have zero := h.zero
    have positive := h.positive
    rw [neg_pos, neg_pos, ← not_le, ← not_le, le_iff_lt_or_eq, le_iff_lt_or_eq, eq_comm, zero,
      eq_comm, positive]
  close := by
    rw [neg_sub_neg, abs_sub_comm]
    exact h.close
  neat neat := by rw [h.neat (by simpa using neat.neg)]

/-- An integer near by stands for a magnitude that counts. -/
theorem Stands.of_integer {m : ℚ} (h : tolerance ≤ m) {n : ℤ} (close : |m - n| < tolerance) :
    Stands n m where
  counts := by
    have positive : 0 < n := by
      by_contra notPositive
      have low : (n : ℚ) ≤ 0 := by exact_mod_cast not_lt.1 notPositive
      have far := (le_abs_self (m - n)).trans_lt close
      linarith
    have one : (1 : ℚ) ≤ n := by exact_mod_cast positive
    exact tolerance_le_one.trans one
  close := by rwa [abs_sub_comm]
  neat neat := neat.eq_of_close close

/-- And so do twelve places. -/
theorem Stands.of_places {m : ℚ} (h : tolerance ≤ m) :
    Stands (nearestInteger (m * 10 ^ 12) / 10 ^ 12) m where
  counts := by
    have close := (abs_le.1 (abs_nearestInteger_sub_le (m * 10 ^ 12))).1
    generalize nearestInteger (m * 10 ^ 12) = n at close ⊢
    rw [tolerance_eq] at h ⊢
    have units : ((999 : ℤ) : ℚ) < n := by
      push_cast
      linarith
    have thousand : ((999 + 1 : ℤ) : ℚ) ≤ n := by exact_mod_cast Int.cast_lt.1 units
    push_cast at thousand
    linarith
  close := by
    have close := abs_nearestInteger_sub_le (m * 10 ^ 12)
    rw [abs_le] at close
    rw [tolerance_eq, abs_lt]
    constructor <;> linarith
  neat neat := by
    obtain ⟨n, places⟩ := neat.places
    have units : m * 10 ^ 12 = n := by
      rw [places]
      ring
    rw [units, nearestInteger_intCast, places]

/-- A magnitude that counts is written as a literal that stands for it. -/
theorem exists_literal {m : ℚ} (h : tolerance ≤ m) :
    ∃ l : Literal, l.Proper ∧ plainNumber m = .ok l.text ∧ Stands l.value m := by
  have positive : 0 < m := tolerance_pos.trans_le h
  simp only [plainNumber, nearest?_eq, ofInt_eq]
  show ∃ l : Literal, l.Proper ∧ (if negligible (m - nearestInteger m) = true then _ else _) = _ ∧ _
  split
  · next near =>
    have stands := Stands.of_integer h ((negligible_iff _).1 near)
    obtain ⟨k, natural⟩ : ∃ k : ℕ, nearestInteger m = k := by
      refine Int.eq_ofNat_of_zero_le ?_
      exact_mod_cast tolerance_pos.le.trans stands.counts
    rw [natural] at stands ⊢
    refine ⟨.ofNat k, Literal.proper_ofNat k, ?_, ?_⟩
    · rw [Literal.text_ofNat]
      rfl
    · rwa [Literal.value_ofNat]
  · have stands := Stands.of_places h
    obtain ⟨k, natural⟩ : ∃ k : ℕ, nearestInteger (m * 10 ^ 12) = k := by
      refine Int.eq_ofNat_of_zero_le ?_
      have counts := tolerance_pos.trans_le stands.counts
      rw [div_pos_iff_of_pos_right (by norm_num)] at counts
      exact_mod_cast counts.le
    refine ⟨.ofUnits 12 k, Literal.proper_ofUnits, ?_, ?_⟩
    · rw [fixedText_eq positive.le, Decimal.fixed_eq (by decide), natural, Int.toNat_natCast,
        String.toList_ofList, Literal.text_ofUnits]
      rfl
    · rw [natural, Int.cast_natCast] at stands
      rwa [Literal.value_ofUnits (by decide)]

end HalfPlane
