/-
The exact values of doubles, from their parts.

The exact value of a double is told by its bits, and the arithmetic of doubles works on their parts.
Both say the same (`numeral_eq`). So a finite double compares with zero as its value does, and its
magnitude has the magnitude of its value (`exists_valued`).
-/
import HalfPlane.Proofs.Double.Finite

namespace HalfPlane

/-- The rational that a number stands for; zero, if there is none. -/
def exactValue {α : Type} [Exact α] (v : α) : ℚ :=
  match (Exact.numeral v).value? with
  | .error _ => 0
  | .ok r => r

/-- What is asked of a number is what is asked of its value. -/
structure Valued {α : Type} [Scalar α] [Exact α] (v : α) : Prop where
  isZero : Scalar.isZero v = true ↔ exactValue v = 0
  negative : v < 0.0 ↔ exactValue v < 0
  magnitude : Exact.numeral (Scalar.abs v) = .finite false |exactValue v|

namespace Double
open Float.Model (Format UnpackedFloat)
open Float.Model.UnpackedFloat (Sign unpackExponent unpackMantissa unpackSign)

/-! ## From bits to parts -/

/-- Whether a sign is a minus. -/
def isMinus : Sign → Bool
  | .negative => true
  | .positive => false

theorem sign_eq (x : Float) :
    (fields x).1 = isMinus (Sign.ofBitVec (@unpackSign .binary64 (word x))) := by
  have bit : (@unpackSign .binary64 (word x)).toNat = (word x).toNat / 2 ^ 63 % 2 := by
    simp only [unpackSign, BitVec.toNat_cast, BitVec.extractLsb_toNat, Nat.shiftRight_eq_div_pow]
  have top : (fields x).1 = true ↔ ¬ @unpackSign .binary64 (word x) = 0#1 := by
    have small : (word x).toNat < 2 ^ 64 := (word x).isLt
    rw [← BitVec.toNat_inj, bit]
    show decide (2 ^ 63 ≤ (word x).toNat) = true ↔ ¬ _ = 0
    rw [decide_eq_true_eq]
    omega
  rw [Bool.eq_iff_iff, top, Sign.ofBitVec]
  split <;> simp [isMinus, *]

/-- The exact value of the parts of a double. -/
def partsNumeral : UnpackedFloat → Numeral
  | .notANumber => .notANumber
  | .infinity s => .infinite (isMinus s)
  | .zero s => .finite (isMinus s) 0
  | .finite s m e _ => .finite (isMinus s) (dyadic m e)

theorem dyadic_eq (m : Nat) (e : Int) : dyadic m e = m * 2 ^ e := by
  cases e with
  | ofNat e => simp [dyadic]
  | negSucc e => simp [dyadic, Rat.mkRat_eq_div, zpow_negSucc, div_eq_mul_inv]

theorem dyadic_pos {m : Nat} (h : 0 < m) (e : Int) : 0 < dyadic m e := by
  rw [dyadic_eq]
  positivity

theorem numeral_eq (x : Float) : numeral x = partsNumeral (unpacked x) := by
  show _ = partsNumeral (UnpackedFloat.unpack .binary64 (word x))
  unfold numeral UnpackedFloat.unpack
  dsimp only
  rw [sign_eq]
  by_cases top : (fields x).2.1 = 2047
  · rw [if_pos top, if_pos (exponent_top_iff.1 top)]
    by_cases zero : (fields x).2.2 = 0
    · rw [if_pos zero, if_pos (fraction_zero_iff.1 zero)]
      rfl
    · rw [if_neg zero, if_neg (mt fraction_zero_iff.2 zero)]
      rfl
  · rw [if_neg top, if_neg (mt exponent_top_iff.2 top)]
    rw [exponent_eq, fraction_eq]
    by_cases least : @unpackExponent .binary64 (word x) = 0#11
    · rw [if_pos least, least]
      split
      · next zero =>
        rw [zero]
        show Numeral.finite _ (dyadic 0 (-1074)) = _
        rw [dyadic_eq, Nat.cast_zero, zero_mul]
        rfl
      · rfl
    · have exponent : (@unpackExponent .binary64 (word x)).toNat ≠ 0 := fun zero =>
        least (BitVec.eq_of_toNat_eq zero)
      rw [if_neg least, parts, if_neg exponent]
      simp only [partsNumeral, toNat_implicit]
      rfl

/-! ## Finite doubles -/

/-- The value of finite parts. -/
def partsValue : UnpackedFloat → ℚ
  | .finite .positive m e _ => dyadic m e
  | .finite .negative m e _ => -dyadic m e
  | _ => 0

theorem exactValue_eq (x : Float) : exactValue x = partsValue (unpacked x) := by
  have numeral : Exact.numeral x = partsNumeral (unpacked x) := numeral_eq x
  rw [exactValue, numeral]
  rcases unpacked x with (_ | _) | _ | (_ | _) | ⟨_ | _, m, e, hm⟩ <;>
    simp [partsNumeral, partsValue, Numeral.value?, isMinus]

theorem valued_of_isFinite {x : Float} (h : x.isFinite = true) : Valued x := by
  have magnitude : Exact.numeral (Scalar.abs x) = partsNumeral (unpacked x).abs := by
    rw [← unpacked_abs]
    exact numeral_eq _
  have zero : Scalar.isZero x = true ↔ ∃ s, unpacked x = .zero s := isZero_iff_unpacked
  have below : x < 0.0 ↔ _ := lt_iff.trans lt_iff_place
  have value := exactValue_eq x
  rw [isFinite_eq] at h
  rw [unpacked_zero] at below
  generalize unpacked x = u at *
  cases u with
  | notANumber => cases h
  | infinity s => cases h
  | zero s =>
    refine ⟨?_, ?_, ?_⟩
    · simp [zero, value, partsValue]
    · simp [below, value, partsValue, place, Before]
    · simp [magnitude, value, partsValue, partsNumeral, UnpackedFloat.abs, isMinus]
  | finite s m e hm =>
    have pos := dyadic_pos hm e
    refine ⟨?_, ?_, ?_⟩
    · cases s <;> simp [zero, value, partsValue, pos.ne']
    · cases s <;> simp [below, value, partsValue, place, Before, pos, pos.le]
    · cases s <;>
        simp [magnitude, value, partsValue, partsNumeral, UnpackedFloat.abs, isMinus, abs_of_pos pos]

end Double
end HalfPlane
