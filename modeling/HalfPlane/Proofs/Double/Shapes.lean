/-
Doubles obey the laws of one and zero, so a formula of doubles has one form in every shape.

The parts of a double are those that rounding leaves alone: a mantissa of 53 bits, or the least
power and a shorter one (`target_unpacked`). A factor one lengthens the mantissa by zeros, which
rounding takes off again without a trace (`round_lengthened`).
-/
import HalfPlane.Proofs.Double.Finite
import HalfPlane.Proofs.Form.Shapes
import HalfPlane.Proofs.Formula.Reading

namespace HalfPlane
namespace Double
open Float.Model (Format UnpackedFloat totalExponent)
open Float.Model.UnpackedFloat (Sign ExtendedMantissa roundWithAccuracy
  shiftToTargetExponent shiftToExponent unpackMantissa unpackExponent)

/-! ## A factor one -/

theorem mul_eq (x y : Float) : x * y = packed (.mul .binary64 (unpacked x) (unpacked y)) := rfl

/-- The zeros at the end of a mantissa are shifted out without a trace. -/
theorem shift_zeros :
    ∀ k m : Nat, ExtendedMantissa.ofMantissaAndAccuracy (m * 2 ^ k) .exact >>> k =
      .ofMantissaAndAccuracy m .exact
  | 0, m => by rw [Nat.pow_zero, Nat.mul_one]; rfl
  | k + 1, m => by
    have even : m * 2 ^ (k + 1) = m * 2 * 2 ^ k := by
      rw [Nat.pow_succ, Nat.mul_assoc, Nat.mul_comm 2]
    show (ExtendedMantissa.ofMantissaAndAccuracy (m * 2 ^ (k + 1)) .exact >>> k).shiftRightOne = _
    rw [even, shift_zeros k (m * 2)]
    simp [ExtendedMantissa.shiftRightOne, ExtendedMantissa.ofMantissaAndAccuracy]

/-- A finite double has a mantissa of 53 bits, or a shorter one and the least power. -/
theorem bounds_unpacked {x : Float} {s : Sign} {m : Nat} {e : Int} {h : 0 < m}
    (parts : unpacked x = .finite s m e h) :
    m < 2 ^ 53 ∧ -1074 ≤ e ∧ (2 ^ 52 ≤ m ∨ e = -1074) := by
  replace parts : UnpackedFloat.unpack .binary64 (word x) = .finite s m e h := parts
  unfold UnpackedFloat.unpack at parts
  dsimp only at parts
  have short : (@unpackMantissa .binary64 (word x)).toNat < 2 ^ 52 := BitVec.isLt _
  split at parts
  · split at parts <;> cases parts
  · split at parts
    · next least =>
      split at parts
      · cases parts
      · obtain ⟨-, rfl, rfl⟩ := UnpackedFloat.finite.inj parts
        rw [bias_eq, least]
        exact ⟨by omega, by decide, .inr (by decide)⟩
    · next higher =>
      obtain ⟨-, rfl, rfl⟩ := UnpackedFloat.finite.inj parts
      have exponent : (@unpackExponent .binary64 (word x)).toNat ≠ 0 := fun zero =>
        higher (BitVec.eq_of_toNat_eq zero)
      rw [bias_eq, toNat_implicit]
      exact ⟨by omega, by omega, .inl (by omega)⟩

/-- The power that rounding brings a number to. -/
def target (m : Nat) (e : Int) : Int := Format.targetExponent .binary64 (totalExponent m e)

theorem target_eq (m : Nat) (e : Int) : target m e = max (m.log2 + e - 52) (-1074) := by
  simp only [target, Format.targetExponent, totalExponent, Format.mantissaBits, Format.minExponent]
  omega

/-- The finite parts of a double are rounded. -/
theorem target_unpacked {x : Float} {s : Sign} {m : Nat} {e : Int} {h : 0 < m}
    (parts : unpacked x = .finite s m e h) : target m e = e := by
  obtain ⟨short, low, bits⟩ := bounds_unpacked parts
  have below : m.log2 < 53 := (Nat.log2_lt (Nat.ne_of_gt h)).2 short
  rw [target_eq]
  rcases bits with long | least
  · have above : 52 ≤ m.log2 := (Nat.le_log2 (Nat.ne_of_gt h)).2 long
    omega
  · omega

theorem log2_lengthened {m : Nat} (hm : m ≠ 0) (k : Nat) : (m * 2 ^ k).log2 = m.log2 + k := by
  have power : 0 < 2 ^ k := Nat.two_pow_pos k
  rw [Nat.log2_eq_iff (Nat.mul_ne_zero hm power.ne'), Nat.add_right_comm, Nat.pow_add, Nat.pow_add]
  exact ⟨Nat.mul_le_mul_right _ (Nat.log2_self_le hm),
    Nat.mul_lt_mul_of_pos_right Nat.lt_log2_self power⟩

/-- On the way to its power a mantissa loses only zeros, if it has enough of them. -/
theorem shift_lengthened {m k : Nat} {e : Int} (goal : target (m * 2 ^ k) (e - k) = e) :
    shiftToTargetExponent .binary64 (m * 2 ^ k) (e - k) .exact =
      (.ofMantissaAndAccuracy m .exact, e) := by
  show shiftToExponent (m * 2 ^ k) (e - k) .exact (target (m * 2 ^ k) (e - k)) = _
  rw [goal, shiftToExponent, show (e - (e - k)).toNat = k by omega, shift_zeros,
    Int.sub_add_cancel]

/-- A mantissa with zeros at its end is rounded to the one without them. -/
theorem round_lengthened (s : Sign) {m : Nat} {e : Int} (hm : 0 < m) (rounded : target m e = e) :
    roundWithAccuracy .binary64 s (m * 2 ^ 52) (e - 52) .exact = .finite s m e hm := by
  have goal : target (m * 2 ^ 52) (e - (52 : Nat)) = e := by
    rw [target_eq] at rounded ⊢
    rw [log2_lengthened (Nat.ne_of_gt hm)]
    omega
  have first := shift_lengthened goal
  have second := shift_lengthened (m := m) (k := 0) (e := e) (by simpa using rounded)
  rw [Nat.pow_zero, Nat.mul_one, Int.natCast_zero, Int.sub_zero] at second
  have unrounded : (ExtendedMantissa.ofMantissaAndAccuracy m .exact).roundedMantissa = m := rfl
  unfold roundWithAccuracy
  rw [show e - 52 = e - (52 : Nat) from rfl, first]
  dsimp only
  rw [unrounded, second]
  exact dif_neg (Nat.ne_of_gt hm)

theorem mul_unit (s t : Sign) {m : Nat} {e : Int} (hm : 0 < m) (rounded : target m e = e) :
    UnpackedFloat.mul .binary64 (.finite s (2 ^ 52) (-52) (by decide)) (.finite t m e hm) =
      .finite (s * t) m e hm := by
  show roundWithAccuracy .binary64 (s * t) (2 ^ 52 * m) (-52 + e) .exact = _
  rw [Nat.mul_comm, Int.add_comm]
  exact round_lengthened _ hm rounded

theorem one_mul_unpacked (x : Float) :
    UnpackedFloat.mul .binary64 (unpacked 1.0) (unpacked x) = unpacked x := by
  have one : unpacked 1.0 = .finite .positive (2 ^ 52) (-52) (by decide) := rfl
  rw [one]
  cases parts : unpacked x with
  | notANumber => rfl
  | infinity s => cases s <;> rfl
  | zero s => cases s <;> rfl
  | finite s m e hm =>
    rw [mul_unit _ _ hm (target_unpacked parts)]
    cases s <;> rfl

theorem neg_one_mul_unpacked (x : Float) :
    UnpackedFloat.mul .binary64 (unpacked (-1.0)) (unpacked x) = (unpacked x).neg := by
  have minusOne : unpacked (-1.0) = .finite .negative (2 ^ 52) (-52) (by decide) := rfl
  rw [minusOne]
  cases parts : unpacked x with
  | notANumber => rfl
  | infinity s => cases s <;> rfl
  | zero s => cases s <;> rfl
  | finite s m e hm =>
    rw [mul_unit _ _ hm (target_unpacked parts)]
    cases s <;> rfl

end Double
open Double

instance : LawfulUnits Float where
  one_mul x := by rw [mul_eq, one_mul_unpacked, packed_unpacked]
  neg_one_mul x := by rw [mul_eq, neg_one_mul_unpacked, neg_eq]
  zero_add x := by
    rw [add_eq, unpacked_zero]
    cases parts : unpacked x with
    | zero s =>
      refine .inr ⟨isZero_iff_unpacked.2 ?_, isZero_iff_unpacked.2 ⟨s, parts⟩⟩
      cases s <;> exact ⟨_, rfl⟩
    | notANumber | infinity | finite =>
      refine .inl ?_
      rw [← packed_unpacked x, parts]
      rfl
  add_zero x z zero := by
    obtain ⟨s, zero⟩ := isZero_iff_unpacked.1 zero
    rw [add_eq, zero]
    cases parts : unpacked x with
    | zero t =>
      refine .inr ⟨isZero_iff_unpacked.2 ?_, isZero_iff_unpacked.2 ⟨t, parts⟩⟩
      cases s <;> cases t <;> exact ⟨_, rfl⟩
    | notANumber | infinity | finite =>
      refine .inl ?_
      rw [← packed_unpacked x, parts]
      rfl
  isZero_zero := Scalar.isZero_zero
  isZero_neg zero := by
    obtain ⟨s, zero⟩ := isZero_iff_unpacked.1 zero
    rw [neg_eq, zero]
    exact isZero_iff_unpacked.2 ⟨-s, unpacked_packed_zero (-s)⟩
  negligible_of_isZero := Scalar.negligible_of_isZero
  eq_one_of_same {x} same := by
    rcases unpacked_eq_of_same same with equal | ⟨_, t, -, one⟩
    · rw [← packed_unpacked x, equal, packed_unpacked]
    · cases one

/-! ## One form in every shape -/

namespace LinearForm
open Shape
open Formula (Literal Reading)

/-- A shape that fits a formula has the form of the formula, or like it none, and so has a text
that spells the formula out. All that is asked of the arithmetic are the laws of one and zero. -/
theorem shapes_agree {α : Type} [Scalar α] [LawfulUnits α] (r : Formula α) :
    (∀ s, standard? r = some s ∨ single? r = some s ∨ slope? r = some s →
      ofShape? s = ofShape? (.general r)) ∧
    ∀ text, Formula.ofText text = .ok r → ofText? text = ofShape? (.general r) := by
  constructor
  · rintro s (standard | single | slope)
    · exact ofShape?_standard? standard
    · exact ofShape?_single? single
    · exact ofShape?_slope? slope
  · exact fun text read => ofText?_eq_general read

def nought : Literal := ⟨['0'], false, []⟩

/-- `y = -0x - 0` -/
def level : Reading :=
  ⟨⟨none, .unknown .y, []⟩, .eq,
    ⟨some .minus, .multiple nought (by decide) false .x, [(.minus, .constant nought (by decide))]⟩⟩

/-- An equation with a slope beyond all doubles, and a negative zero. -/
def steepest : Formula Float :=
  ⟨[⟨some .y, 1.0⟩], .eq, [⟨some .x, -1.0 / 0.0⟩, ⟨none, -0.0⟩]⟩

theorem shapes_agree_of_level :
    ofText? "y = -0x - 0" = ofShape? (.general (level.formula : Formula Float)) ∧
      ofShape? (.slope (-1.0 * nought.value) (-1.0 * nought.value) : Shape Float) =
        ofShape? (.general level.formula) ∧
      ofShape? (.slope (-1.0 / 0.0) (-0.0)) = ofShape? (.general steepest) := by
  have bare : isBareY [(⟨some .y, 1.0⟩ : Term Float)] = true := by decide +kernel
  have read : Formula.ofText "y = -0x - 0" = .ok (level.formula : Formula Float) :=
    Formula.ofText_of_text (by decide +kernel)
  have slope : slope? (level.formula : Formula Float) = some (.slope _ _) := if_pos ⟨rfl, bare⟩
  have steep : slope? steepest = some (.slope _ _) := if_pos ⟨rfl, bare⟩
  exact ⟨(shapes_agree _).2 _ read, (shapes_agree _).1 _ (.inr (.inr slope)),
    (shapes_agree _).1 _ (.inr (.inr steep))⟩

end LinearForm
end HalfPlane
