/-
Lengths of one or more are not lost.

A hypotenuse is the rounded root of an exact sum of squares. If one of its legs is one or more, the
root has all the bits of a mantissa and stands above the tolerance (`not_hypot_lt_tolerance`). So the
way between the far points of a line is long enough to have a unit normal, whatever the coefficients
(`exists_unitNormal`).
-/
import HalfPlane.Geometry.Line
import HalfPlane.Proofs.Double.Finite
import HalfPlane.Proofs.Success

namespace HalfPlane
namespace Double
open Float.Model (Format UnpackedFloat)
open Float.Model.UnpackedFloat (Sign Accuracy roundWithAccuracy shiftToTargetExponent sqrtCore
  unpackMantissa_packComponents unpackExponent_packComponents unpackSign_packComponents)

/-! ## Whole mantissas -/

/-- `m * 2 ^ e` has the bits of a whole mantissa, and is one or more. -/
structure Long (m : Nat) (e : Int) : Prop where
  bits : 2 ^ 52 ≤ m
  large : 0 ≤ m.log2 + e

theorem Long.of_power {m k : Nat} {e : Int} (bits : 52 ≤ k) (large : 0 ≤ k + e) (h : 2 ^ k ≤ m) :
    Long m e := by
  have pos : 0 < m := (Nat.two_pow_pos k).trans_le h
  have log : k ≤ m.log2 := (Nat.le_log2 pos.ne').2 h
  exact ⟨(Nat.pow_le_pow_right (by decide) bits).trans h, by omega⟩

/-- What a shift leaves has as many bits as a mantissa. -/
theorem Long.shift {m : Nat} {e : Int} (h : Long m e) (accuracy : Accuracy) (he : -1074 ≤ e) :
    2 ^ 52 ≤ (shiftToTargetExponent .binary64 m e accuracy).1.mantissa ∧
      -52 ≤ (shiftToTargetExponent .binary64 m e accuracy).2 := by
  obtain ⟨mantissa, power⟩ := shift_eq (m := m) accuracy he
  have pos : m ≠ 0 := ((Nat.two_pow_pos 52).trans_le h.bits).ne'
  have log : 52 ≤ m.log2 := (Nat.le_log2 pos).2 h.bits
  have large := h.large
  rw [mantissa, power]
  refine ⟨(Nat.le_div_iff_mul_le (Nat.two_pow_pos _)).2 ?_, by omega⟩
  rw [← Nat.pow_add, Nat.add_sub_cancel' log]
  exact Nat.log2_self_le pos

theorem Long.round {m : Nat} {e : Int} (h : Long m e) (s : Sign) (accuracy : Accuracy)
    (he : -1074 ≤ e) :
    ∃ n f, ∃ pos : 0 < n, roundWithAccuracy .binary64 s m e accuracy = .finite s n f pos ∧
      2 ^ 52 ≤ n ∧ n < 2 ^ 53 ∧ -52 ≤ f := by
  obtain ⟨bits, power⟩ := h.shift accuracy he
  unfold roundWithAccuracy
  generalize shiftToTargetExponent .binary64 m e accuracy = shifted at bits power ⊢
  have rounded := bits.trans (le_roundedMantissa _)
  have long : Long shifted.1.roundedMantissa shifted.2 :=
    .of_power (Nat.le_refl 52) (by omega) rounded
  obtain ⟨bits, low⟩ := long.shift .exact (by omega)
  obtain ⟨pos, small, -⟩ :=
    shift_bounds .exact ((Nat.two_pow_pos 52).trans_le rounded) (by omega : -1074 ≤ shifted.2)
  exact ⟨_, _, pos, dif_neg pos.ne', bits, small, low⟩

/-- A whole mantissa is kept as it is, unless the number is too large to be kept. -/
theorem unpacked_packed_whole (s : Sign) {m : Nat} {e : Int} (hm : 0 < m) (bits : 2 ^ 52 ≤ m)
    (small : m < 2 ^ 53) (low : -1074 ≤ e) :
    unpacked (packed (.finite s m e hm)) = .infinity s ∨
      unpacked (packed (.finite s m e hm)) = .finite s m e hm := by
  have log : m.log2 = 52 := (Nat.log2_eq_iff hm.ne').2 ⟨bits, small⟩
  show UnpackedFloat.unpack .binary64 (UnpackedFloat.pack .binary64 (.finite s m e hm)) = _ ∨
    UnpackedFloat.unpack .binary64 (UnpackedFloat.pack .binary64 (.finite s m e hm)) = _
  simp only [UnpackedFloat.pack]
  split
  · left
    cases s <;> rfl
  · next fits =>
    right
    rw [if_pos (by rw [log]; rfl)]
    simp only [UnpackedFloat.unpack, unpackMantissa_packComponents, unpackExponent_packComponents,
      unpackSign_packComponents, Sign.ofBitVec_toBitVec]
    generalize biased : (e + (Format.binary64.exponentBias : Int) + (52 : Nat)).toNat = b at fits ⊢
    rw [Int.add_assoc, bias_eq] at biased
    have kept : (BitVec.ofNat 11 b).toNat = b := by
      rw [BitVec.toNat_ofNat]
      omega
    have normal : BitVec.ofNat 11 b ≠ 0#11 := by
      rw [ne_eq, ← BitVec.toNat_inj, kept]
      show b ≠ 0
      omega
    have mantissa : (1#1 ++ BitVec.ofNat 52 m).toNat = m := by
      rw [toNat_implicit, BitVec.toNat_ofNat]
      omega
    simp only [if_neg (biased_ne_top fits), if_neg normal, UnpackedFloat.finite.injEq, mantissa, kept,
      bias_eq, true_and]
    omega

theorem not_packed_lt_tolerance {m : Nat} {e : Int} (hm : 0 < m) (bits : 2 ^ 52 ≤ m)
    (small : m < 2 ^ 53) (low : -52 ≤ e) :
    ¬ packed (.finite .positive m e hm) < Scalar.tolerance := by
  have tolerance : ∃ n h, unpacked Scalar.tolerance = .finite .positive n (-82) h :=
    ⟨_, _, rfl⟩
  obtain ⟨n, hn, tolerance⟩ := tolerance
  rw [lt_iff, lt_iff_place, tolerance]
  rintro ⟨p, q, hp, hq, before⟩
  cases hq
  rcases unpacked_packed_whole (e := e) .positive hm bits small (by omega) with kept | kept
  all_goals
    rw [kept] at hp
    cases hp
    dsimp only [Before] at before
    omega

/-! ## Roots -/

theorem Long.sqrtCore {m : Nat} {e : Int} (hm : 0 < m) (large : 0 ≤ m.log2 + e) :
    Long (sqrtCore .binary64 m e).1 (sqrtCore .binary64 m e).2.1 := by
  simp only [Float.Model.UnpackedFloat.sqrtCore]
  generalize goal : min (e.ediv 2) _ = t
  have half : t ≤ e / 2 := goal ▸ Int.min_le_left _ _
  -- The power is so low that the square has twice the bits of a mantissa.
  have fine : 2 * t + 104 ≤ m.log2 + e := by
    have wide : t ≤ max ((m.log2 + 1 + e + 1) / 2 - 53) (-1074) := goal ▸ Int.min_le_right _ _
    omega
  obtain ⟨k, power⟩ : ∃ k : Nat, (k : Int) = (m.log2 + e - 2 * t) / 2 :=
    ⟨_, Int.toNat_of_nonneg (by omega)⟩
  refine .of_power (k := k) (by omega) (by omega) ?_
  rw [Nat.le_sqrt, ← Nat.pow_add, Nat.shiftLeft_eq]
  calc 2 ^ (k + k) ≤ 2 ^ (m.log2 + (e - 2 * t).toNat) :=
        Nat.pow_le_pow_right (by decide) (by omega)
    _ = 2 ^ m.log2 * 2 ^ (e - 2 * t).toNat := Nat.pow_add ..
    _ ≤ m * 2 ^ (e - 2 * t).toNat := Nat.mul_le_mul_right _ (Nat.log2_self_le hm.ne')

theorem not_root_lt_tolerance {m : Nat} {e : Int} (hm : 0 < m) (large : 0 ≤ m.log2 + e)
    (he : -2148 ≤ e) : ¬ root m e < Scalar.tolerance := by
  obtain ⟨n, f, pos, rounded, bits, small, low⟩ :=
    (Long.sqrtCore hm large).round .positive (sqrtCore .binary64 m e).2.2 (sqrtCore_bounds hm he).2
  rw [root, dif_pos hm]
  show ¬ packed (UnpackedFloat.sqrt .binary64 (.finite .positive m e hm)) < Scalar.tolerance
  simp only [UnpackedFloat.sqrt, rounded]
  exact not_packed_lt_tolerance pos bits small low

/-! ## Hypotenuses -/

/-- A sum of squares with the square of a number that is one or more in it. -/
theorem not_root_lt_tolerance_of_square {m n : Nat} {e low : Int} (hm : 0 < m)
    (large : 0 ≤ m.log2 + e) (lower : low ≤ e) (least : -1074 ≤ low)
    (square : m * m * Nat.pow 4 (e - low).toNat ≤ n) : ¬ root n (2 * low) < Scalar.tolerance := by
  have power : 2 ^ (2 * (m.log2 + (e - low).toNat)) ≤ n := by
    calc 2 ^ (2 * (m.log2 + (e - low).toNat))
        = 2 ^ m.log2 * 2 ^ m.log2 * (2 ^ 2) ^ (e - low).toNat := by
          rw [← Nat.pow_mul, ← Nat.pow_add, ← Nat.pow_add]
          congr 1
          omega
      _ ≤ m * m * 4 ^ (e - low).toNat :=
          Nat.mul_le_mul_right _
            (Nat.mul_le_mul (Nat.log2_self_le hm.ne') (Nat.log2_self_le hm.ne'))
      _ ≤ n := square
  have pos : 0 < n := (Nat.two_pow_pos _).trans_le power
  have log := (Nat.le_log2 pos.ne').2 power
  exact not_root_lt_tolerance pos (by omega) (by omega)

/-- A double that is one or more, by the field of its exponent. -/
theorem parts_large {exponent : Nat} (h : 1023 ≤ exponent) (fraction : Nat) :
    0 < (parts exponent fraction).1 ∧
      0 ≤ (parts exponent fraction).1.log2 + (parts exponent fraction).2 := by
  rw [parts, if_neg (by omega)]
  show 0 < fraction + 2 ^ 52 ∧ 0 ≤ ((fraction + 2 ^ 52).log2 : Int) + ((exponent : Int) - 1075)
  have log : 52 ≤ (fraction + 2 ^ 52).log2 := (Nat.le_log2 (by omega)).2 (by omega)
  omega

/-- A hypotenuse over a leg that is one or more is not below the tolerance. -/
theorem not_hypot_lt_tolerance {x y : Float} (h : 1023 ≤ (fields x).2.1 ∨ 1023 ≤ (fields y).2.1) :
    ¬ Hypot.hypot x y < Scalar.tolerance := by
  show ¬ hypot x y < Scalar.tolerance
  rcases hypot_cases x y with infinite | missing | ⟨m, e, n, f, hx, hy, rooted⟩
  · rw [infinite]
    decide +kernel
  · rw [missing]
    decide +kernel
  · obtain ⟨-, low₁⟩ := parts_bounds (fields x).2.1 (fields x).2.2
    obtain ⟨-, low₂⟩ := parts_bounds (fields y).2.1 (fields y).2.2
    rw [hx] at low₁
    rw [hy] at low₂
    have least : -1074 ≤ min e f := Int.le_min.2 ⟨low₁, low₂⟩
    rw [rooted]
    rcases h with h | h
    · have large := parts_large h (fields x).2.2
      rw [hx] at large
      exact not_root_lt_tolerance_of_square large.1 large.2 (Int.min_le_left _ _) least
        (Nat.le_add_right _ _)
    · have large := parts_large h (fields y).2.2
      rw [hy] at large
      exact not_root_lt_tolerance_of_square large.1 large.2 (Int.min_le_right _ _) least
        (Nat.le_add_left _ _)

end Double

/-! ## Normals -/

/-- A line of doubles has a unit normal. -/
theorem LinearForm.exists_unitNormal {f : LinearForm Float} {n? : Option (Direction Float)}
    (h : f.unitNormal = .ok n?) : ∃ n, n? = some n := by
  obtain ⟨⟨p, q⟩, far, h⟩ := bind_ok_iff.1 h
  have wide : 1023 ≤ (Double.fields (Scalar.reach - -Scalar.reach)).2.1 := by decide +kernel
  have long : ¬ Hypot.hypot (q.x - p.x) (q.y - p.y) < Scalar.tolerance := by
    unfold boundary at far
    split at far
    · cases far
      exact Double.not_hypot_lt_tolerance (.inl wide)
    · obtain ⟨x, -, far⟩ := bind_ok_iff.1 far
      cases far
      exact Double.not_hypot_lt_tolerance (.inr wide)
  dsimp only at h
  rw [if_neg long] at h
  cases h
  exact ⟨_, rfl⟩

end HalfPlane
