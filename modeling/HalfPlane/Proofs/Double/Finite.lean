/-
Doubles that are finite, doubles that are not zero, and doubles that compare equal.

A quotient or a difference is finite only if what it starts from is, and so is what passes a
test against the tolerance. What is not zero has a length that is not zero: rounding takes
at most the bits that are too many for a mantissa, and the root of a number of this size is
large enough to keep one (`isZero_root`). Only zeros compare equal without being equal, and adding
zero leaves one of them (`eq_of_same`).
-/
import HalfPlane.Proofs.Double.Laws

namespace HalfPlane.Double
open Float.Model (Format UnpackedFloat)
open Float.Model.UnpackedFloat (Sign Accuracy ExtendedMantissa packComponents unpackExponent
  unpackMantissa roundWithAccuracy shiftToTargetExponent sqrtCore)

/-! ## The fields of a double -/

/-- The word that a double is kept in. -/
def word (x : Float) : BitVec 64 := x.toModel.toBits.toBitVec

theorem exponent_eq (x : Float) :
    (fields x).2.1 = (@unpackExponent .binary64 (word x)).toNat := by
  simp only [fields, unpackExponent, BitVec.toNat_cast, BitVec.extractLsb_toNat]
  show (word x).toNat / 2 ^ 52 % 2 ^ 11 = _
  rw [Nat.shiftRight_eq_div_pow]

theorem fraction_eq (x : Float) :
    (fields x).2.2 = (@unpackMantissa .binary64 (word x)).toNat := by
  simp only [fields, unpackMantissa, BitVec.toNat_cast, BitVec.extractLsb_toNat]
  show (word x).toNat % 2 ^ 52 = _
  rw [Nat.shiftRight_zero]

theorem exponent_top_iff {x : Float} :
    (fields x).2.1 = 2047 ↔ @unpackExponent .binary64 (word x) = -1#11 := by
  rw [exponent_eq, ← BitVec.toNat_inj]
  rfl

theorem exponent_zero_iff {x : Float} :
    (fields x).2.1 = 0 ↔ @unpackExponent .binary64 (word x) = 0#11 := by
  rw [exponent_eq, ← BitVec.toNat_inj]
  rfl

theorem fraction_zero_iff {x : Float} :
    (fields x).2.2 = 0 ↔ @unpackMantissa .binary64 (word x) = 0#52 := by
  rw [fraction_eq, ← BitVec.toNat_inj]
  rfl

theorem bias_eq : (Format.binary64.exponentBias : Int) + (52 : Nat) = 1075 := rfl

/-- The bit that is not kept is the highest one. -/
theorem toNat_implicit (m : BitVec 52) : (1#1 ++ m).toNat = m.toNat + 2 ^ 52 := by
  rw [BitVec.toNat_append, ← Nat.shiftLeft_add_eq_or_of_lt m.isLt, Nat.shiftLeft_eq,
    show (1#1).toNat = 1 from rfl, Nat.one_mul, Nat.add_comm]

theorem isFinite_iff_exponent {x : Float} : x.isFinite = true ↔ (fields x).2.1 ≠ 2047 := by
  rw [ne_eq, exponent_top_iff]
  show (UnpackedFloat.unpack .binary64 (word x)).isFinite = true ↔ _
  unfold UnpackedFloat.unpack
  dsimp only
  split
  · next h => split <;> exact ⟨fun finite => Bool.noConfusion finite, fun other => absurd h other⟩
  · next h =>
    split
    · split <;> exact ⟨fun _ => h, fun _ => rfl⟩
    · exact ⟨fun _ => h, fun _ => rfl⟩

theorem isZero_iff_fields {x : Float} :
    Scalar.isZero x = true ↔ (fields x).2.1 = 0 ∧ (fields x).2.2 = 0 := by
  rw [isZero_iff_unpacked, exponent_zero_iff, fraction_zero_iff]
  show (∃ s, UnpackedFloat.unpack .binary64 (word x) = .zero s) ↔ _
  unfold UnpackedFloat.unpack
  dsimp only
  split
  · next h =>
    rw [h]
    split <;> simp
  · split
    · split <;> simp [*]
    · simp [*]

/-- Exactly the finite numbers have a value. -/
theorem nearest?_ok_iff {x : Float} : (∃ n, nearest? x = .ok n) ↔ x.isFinite = true := by
  rw [isFinite_iff_exponent]
  show (∃ n, ((numeral x).nearest?.mapError Fault.unbounded) = .ok n) ↔ _
  unfold numeral Numeral.nearest?
  dsimp only
  split
  · next h => split <;> simp [Numeral.value?, h, Except.map, Except.mapError]
  · next h => simp [Numeral.value?, h, Except.map, Except.mapError]

/-! ## What is finite -/

theorem isFinite_eq (x : Float) : x.isFinite = (unpacked x).isFinite := rfl

theorem div_eq (x y : Float) : x / y = packed (.div .binary64 (unpacked x) (unpacked y)) := rfl

theorem neg_eq (x : Float) : -x = packed (unpacked x).neg := rfl

/-- Packing makes nothing finite. -/
theorem isFinite_of_packed {u : UnpackedFloat} (h : (packed u).isFinite = true) :
    u.isFinite = true := by
  rcases u with (_ | _) | _ | _ | _
  case infinity.negative | infinity.positive | notANumber =>
    exact absurd h (by decide +kernel)
  all_goals rfl

theorem isFinite_of_neg {x : Float} (h : (-x).isFinite = true) : x.isFinite = true := by
  rw [neg_eq] at h
  have parts := isFinite_of_packed h
  rw [isFinite_eq]
  generalize unpacked x = u at parts ⊢
  rcases u with _ | _ | _ | _ <;> first | rfl | cases parts

theorem isFinite_of_div {x y : Float} (h : (x / y).isFinite = true) : x.isFinite = true := by
  rw [div_eq] at h
  have parts := isFinite_of_packed h
  rw [isFinite_eq]
  generalize unpacked x = u at parts ⊢
  generalize unpacked y = v at parts
  rcases u with _ | _ | _ | _ <;> rcases v with _ | _ | _ | _ <;> first | rfl | cases parts

theorem isFinite_of_sub {x y : Float} (h : (x - y).isFinite = true) : x.isFinite = true := by
  rw [sub_eq] at h
  have parts := isFinite_of_packed h
  rw [isFinite_eq]
  generalize unpacked x = u at parts ⊢
  generalize unpacked y = v at parts
  rcases u with (_ | _) | _ | _ | _ <;> rcases v with (_ | _) | _ | _ | _ <;>
    first | rfl | cases parts

theorem isFinite_abs (x : Float) : (Scalar.abs x).isFinite = x.isFinite := by
  rw [isFinite_eq, unpacked_abs, isFinite_eq]
  cases unpacked x <;> rfl

/-- The tolerance is finite, and so is what is below it. -/
theorem isFinite_of_negligible {x : Float} (h : Scalar.negligible x = true) :
    x.isFinite = true := by
  have limit : (unpacked Scalar.tolerance).isFinite = true := by
    show (Scalar.tolerance : Float).isFinite = true
    decide +kernel
  rw [negligible_eq] at h
  obtain ⟨p, q, hp, hq, before⟩ := lt_iff_place.1 h
  rw [isFinite_eq]
  generalize unpacked x = u at hp ⊢
  generalize unpacked Scalar.tolerance = v at limit hq
  rcases u with _ | _ | _ | _
  case zero | finite => rfl
  case notANumber => cases hp
  case infinity =>
    rcases v with _ | _ | _ | ⟨_ | _, _, _, _⟩ <;> cases limit <;> cases hp <;> cases hq <;>
      simp [Before] at before

theorem isFinite_of_isZero {x : Float} (h : Scalar.isZero x = true) : x.isFinite = true :=
  isFinite_of_negligible (Scalar.negligible_of_isZero h)

/-! ## Rounding -/

theorem shift_mantissa (em : ExtendedMantissa) (k : Nat) :
    (em >>> k).mantissa = em.mantissa / 2 ^ k := by
  induction k with
  | zero => exact (Nat.div_one _).symm
  | succ k ih =>
    show (em >>> k).mantissa / 2 = _
    rw [ih, Nat.div_div_eq_div_mul, Nat.pow_succ]

theorem le_roundedMantissa (em : ExtendedMantissa) : em.mantissa ≤ em.roundedMantissa := by
  rcases em with ⟨m, _ | _, _ | _⟩ <;>
    simp [ExtendedMantissa.roundedMantissa, ExtendedMantissa.accuracy, Accuracy.roundToNearestEven]

/-- A shift takes the bits that are too many for a mantissa. -/
theorem shift_eq {m : Nat} {e : Int} (accuracy : Accuracy) (he : -1074 ≤ e) :
    (shiftToTargetExponent .binary64 m e accuracy).1.mantissa = m / 2 ^ (m.log2 - 52) ∧
      (shiftToTargetExponent .binary64 m e accuracy).2 = e + (m.log2 - 52 : Nat) := by
  have start : ∀ k : Nat,
      (ExtendedMantissa.ofMantissaAndAccuracy m accuracy >>> k).mantissa = m / 2 ^ k := by
    intro k
    rw [shift_mantissa]
    rcases accuracy with _ | _ | _ | _ <;> rfl
  have amount : (Format.targetExponent .binary64 (Float.Model.totalExponent m e) - e).toNat =
      m.log2 - 52 := by
    simp only [Format.targetExponent, Float.Model.totalExponent, Format.mantissaBits,
      Format.minExponent]
    omega
  simp only [shiftToTargetExponent, Float.Model.UnpackedFloat.shiftToExponent, amount, start,
    and_self]

/-- And it takes no more. -/
theorem shift_bounds {m : Nat} {e : Int} (accuracy : Accuracy) (hm : 0 < m) (he : -1074 ≤ e) :
    0 < (shiftToTargetExponent .binary64 m e accuracy).1.mantissa ∧
      (shiftToTargetExponent .binary64 m e accuracy).1.mantissa < 2 ^ 53 ∧
      -1074 ≤ (shiftToTargetExponent .binary64 m e accuracy).2 := by
  obtain ⟨mantissa, power⟩ := shift_eq (m := m) accuracy he
  rw [mantissa, power]
  have low : 2 ^ m.log2 ≤ m := Nat.log2_self_le (Nat.ne_of_gt hm)
  have high : m < 2 ^ (m.log2 + 1) := Nat.lt_log2_self
  refine ⟨Nat.div_pos ?_ (by positivity), (Nat.div_lt_iff_lt_mul (by positivity)).2 ?_, by omega⟩
  · exact (Nat.pow_le_pow_right (by omega) (Nat.sub_le _ _)).trans low
  · rw [← Nat.pow_add]
    exact high.trans_le (Nat.pow_le_pow_right (by omega) (by omega))

theorem roundWithAccuracy_bounds (s : Sign) {m : Nat} {e : Int} (accuracy : Accuracy) (hm : 0 < m)
    (he : -1074 ≤ e) :
    ∃ n f, ∃ h : 0 < n, roundWithAccuracy .binary64 s m e accuracy = .finite s n f h ∧
      n < 2 ^ 53 ∧ -1074 ≤ f := by
  obtain ⟨pos, -, low⟩ := shift_bounds accuracy hm he
  obtain ⟨pos', small, low'⟩ :=
    shift_bounds .exact (pos.trans_le (le_roundedMantissa _)) low
  refine ⟨_, _, pos', ?_, small, low'⟩
  unfold roundWithAccuracy
  dsimp only
  rw [dif_neg (Nat.ne_of_gt pos')]

/-! ## What is not zero -/

theorem unpack_ne_zero {s : Sign} {e : BitVec 11} {m : BitVec 52} (h : e ≠ 0#11 ∨ m ≠ 0#52)
    (t : Sign) : UnpackedFloat.unpack .binary64 (packComponents .binary64 s e m) ≠ .zero t := by
  simp only [UnpackedFloat.unpack, Float.Model.UnpackedFloat.unpackMantissa_packComponents,
    Float.Model.UnpackedFloat.unpackExponent_packComponents]
  split
  · split <;> simp
  · split
    · next zero =>
      have fraction := h.resolve_left (fun other => other zero)
      simp [fraction]
    · simp

theorem isZero_packed_finite (s : Sign) {m : Nat} {e : Int} (hm : 0 < m) (small : m < 2 ^ 53)
    (low : -1074 ≤ e) : Scalar.isZero (packed (.finite s m e hm)) = false := by
  refine Bool.eq_false_iff.2 fun zero => ?_
  obtain ⟨t, zero⟩ := isZero_iff_unpacked.1 zero
  revert zero
  show UnpackedFloat.unpack .binary64 (UnpackedFloat.pack .binary64 (.finite s m e hm)) ≠ .zero t
  simp only [UnpackedFloat.pack]
  split
  · exact unpack_ne_zero (.inl (by decide)) t
  · next fits =>
    split
    · refine unpack_ne_zero (.inl fun h => ?_) t
      have biased := congrArg BitVec.toNat h
      simp only [BitVec.toNat_ofNat, Format.exponentBias] at biased fits
      omega
    · next subnormal =>
      refine unpack_ne_zero (.inr fun h => ?_) t
      have fraction := congrArg BitVec.toNat h
      simp only [BitVec.toNat_ofNat, Nat.zero_mod] at fraction
      have top : m = 2 ^ 52 := by omega
      rw [top, Nat.log2_two_pow] at subnormal
      exact subnormal rfl

/-! ## Lengths -/

theorem sqrtCore_bounds {m : Nat} {e : Int} (hm : 0 < m) (he : -2148 ≤ e) :
    0 < (sqrtCore .binary64 m e).1 ∧ -1074 ≤ (sqrtCore .binary64 m e).2.1 := by
  have half : -1074 ≤ e.ediv 2 := by
    show -1074 ≤ e / 2
    omega
  simp only [sqrtCore, Format.targetExponent, Format.minExponent, Format.mantissaBits]
  refine ⟨?_, by omega⟩
  exact Nat.sqrt_pos.2 (Nat.shiftLeft_pos_iff.2 hm)

theorem isZero_root {m : Nat} {e : Int} (hm : 0 < m) (he : -2148 ≤ e) :
    Scalar.isZero (root m e) = false := by
  obtain ⟨pos, low⟩ := sqrtCore_bounds hm he
  obtain ⟨n, f, h, rounded, small, low⟩ :=
    roundWithAccuracy_bounds .positive (sqrtCore .binary64 m e).2.2 pos low
  rw [root, dif_pos hm]
  show Scalar.isZero (packed (UnpackedFloat.sqrt .binary64 (.finite .positive m e hm))) = false
  simp only [UnpackedFloat.sqrt, rounded]
  exact isZero_packed_finite .positive h small low

/-- The mantissa of a number that is not zero is not, and no power is below the least one. -/
theorem parts_bounds (exponent fraction : Nat) :
    (¬ (exponent = 0 ∧ fraction = 0) → 0 < (parts exponent fraction).1) ∧
      -1074 ≤ (parts exponent fraction).2 := by
  unfold parts
  split
  · next h => exact ⟨fun other => by show 0 < fraction; omega, Int.le_refl _⟩
  · next h =>
    refine ⟨fun _ => ?_, ?_⟩
    · show 0 < fraction + 2 ^ 52
      omega
    · show (-1074 : Int) ≤ exponent - 1075
      omega

/-- A hypotenuse is infinite, or no number, or the rounded root of the exact sum of two squares. -/
theorem hypot_cases (x y : Float) :
    hypot x y = 1.0 / 0.0 ∨ hypot x y = 0.0 / 0.0 ∨
      ∃ m e n f, parts (fields x).2.1 (fields x).2.2 = (m, e) ∧
        parts (fields y).2.1 (fields y).2.2 = (n, f) ∧
        hypot x y = root (m * m * Nat.pow 4 (e - min e f).toNat +
          n * n * Nat.pow 4 (f - min e f).toNat) (2 * min e f) := by
  unfold hypot
  dsimp only
  split
  · exact .inl rfl
  · split
    · exact .inr (.inl rfl)
    · exact .inr (.inr ⟨_, _, _, _, rfl, rfl, rfl⟩)

/-- A triangle with a leg that is not zero has a hypotenuse that is not zero. -/
theorem isZero_hypot {x y : Float} (h : Scalar.isZero x = false ∨ Scalar.isZero y = false) :
    Scalar.isZero (Hypot.hypot x y) = false := by
  show Scalar.isZero (hypot x y) = false
  rw [Bool.eq_false_iff, Bool.eq_false_iff, ne_eq, ne_eq, isZero_iff_fields, isZero_iff_fields] at h
  rcases hypot_cases x y with infinite | missing | ⟨m, e, n, f, hx, hy, rooted⟩
  · rw [infinite]
    decide +kernel
  · rw [missing]
    decide +kernel
  · obtain ⟨pos₁, low₁⟩ := parts_bounds (fields x).2.1 (fields x).2.2
    obtain ⟨pos₂, low₂⟩ := parts_bounds (fields y).2.1 (fields y).2.2
    rw [hx] at pos₁ low₁
    rw [hy] at pos₂ low₂
    have power : ∀ n, 0 < Nat.pow 4 n := fun n => Nat.pow_pos (by decide)
    rw [rooted]
    refine isZero_root ?_ (by omega)
    rcases h with h | h
    · exact Nat.add_pos_left (Nat.mul_pos (Nat.mul_pos (pos₁ h) (pos₁ h)) (power _)) _
    · exact Nat.add_pos_right _ (Nat.mul_pos (Nat.mul_pos (pos₂ h) (pos₂ h)) (power _))

/-! ## Doubles that compare equal -/

/-- The difference of a finite number from itself is a zero. -/
theorem negligible_sub_self {x : Float} (h : x.isFinite = true) :
    Scalar.negligible (x - x) = true := by
  have zero : ∃ s, UnpackedFloat.sub .binary64 (unpacked x) (unpacked x) = .zero s := by
    rw [isFinite_eq] at h
    generalize unpacked x = u at h ⊢
    rcases u with _ | _ | s | ⟨s, m, e, hm⟩
    case notANumber | infinity => cases h
    case zero => cases s <;> exact ⟨_, rfl⟩
    case finite =>
      refine ⟨.positive, ?_⟩
      simp only [UnpackedFloat.sub, Int.sub_self]
      rfl
  obtain ⟨s, zero⟩ := zero
  have small := lt_iff.1 LawfulCoordinate.zero_lt_tolerance
  rw [unpacked_zero] at small
  rw [negligible_eq, sub_eq, zero, unpacked_packed_zero]
  exact small

theorem unpacked_eq_of_same {x y : Float} (h : Scalar.same x y = true) :
    unpacked x = unpacked y ∨ ∃ s t, unpacked x = .zero s ∧ unpacked y = .zero t := by
  rw [Scalar.same, Bool.and_eq_true, decide_eq_true_eq, decide_eq_true_eq] at h
  obtain ⟨p, q, hp, hq, below⟩ := le_iff_place.1 (le_iff.1 h.1)
  obtain ⟨q', p', hq', hp', above⟩ := le_iff_place.1 (le_iff.1 h.2)
  rw [hp, Option.some.injEq] at hp'
  rw [hq, Option.some.injEq] at hq'
  subst hp' hq'
  have place : p = q := by
    obtain ⟨p₁, p₂, p₃⟩ := p
    obtain ⟨q₁, q₂, q₃⟩ := q
    simp only [Before, Prod.mk.injEq] at *
    omega
  subst place
  generalize unpacked x = u at hp ⊢
  generalize unpacked y = v at hq ⊢
  rw [← hq] at hp
  rcases u with (_ | _) | _ | s | ⟨_ | _, m, e, hm⟩ <;>
    rcases v with (_ | _) | _ | t | ⟨_ | _, n, f, hn⟩ <;> simp [place] at hp ⊢
  all_goals omega

/-- Adding zero makes a negative zero positive. -/
theorem unpacked_add_zero_ne (x : Float) : unpacked (x + 0.0) ≠ .zero .negative := by
  have same := unpacked_packed_unpacked x
  rw [add_eq, unpacked_zero]
  generalize unpacked x = u at same ⊢
  intro h
  rcases u with _ | _ | (_ | _) | _
  case zero.negative =>
    have positive := (unpacked_packed_zero .positive).symm.trans h
    cases positive
  all_goals
    have kept := same.symm.trans h
    cases kept

/-- So sums with zero that compare equal are equal. -/
theorem eq_of_same {x y : Float} (h : Scalar.same (x + 0.0) (y + 0.0) = true) :
    x + 0.0 = y + 0.0 := by
  rcases unpacked_eq_of_same h with equal | ⟨s, t, hx, hy⟩
  · rw [← packed_unpacked (x + 0.0), equal, packed_unpacked]
  · have positive : ∀ {z : Float} {s : Sign}, unpacked (z + 0.0) = .zero s → s = .positive := by
      intro z s hz
      cases s with
      | positive => rfl
      | negative => exact absurd hz (unpacked_add_zero_ne z)
    rw [← packed_unpacked (x + 0.0), ← packed_unpacked (y + 0.0), hx, hy, positive hx, positive hy]

end HalfPlane.Double
