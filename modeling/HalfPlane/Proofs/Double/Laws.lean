/-
The laws of arithmetic that a board asks for hold of doubles.

A comparison of two numbers compares their places: the side of zero, then the exponent,
then the mantissa (`lt_iff_place`, `le_iff_place`), so the laws of the order are those of
triples of integers. The others follow the parts of a number through a difference: those
of `x - y` and of `y - x` are opposite, or both are a zero (`sub_opposite`).
-/
import Mathlib
import HalfPlane.Double
import HalfPlane.Proofs.Arithmetic

namespace HalfPlane
namespace Double
open Float.Model (Format UnpackedFloat)
open Float.Model.UnpackedFloat (Sign packComponents unpackMantissa_packComponents
  unpackExponent_packComponents)

/-! ## A change of sign -/

theorem unpack_packComponents_neg (s : Sign) (e : BitVec 11) (m : BitVec 52)
    (number : e ≠ -1#11 ∨ m = 0#52) :
    UnpackedFloat.unpack .binary64 (packComponents .binary64 (-s) e m) =
      (UnpackedFloat.unpack .binary64 (packComponents .binary64 s e m)).neg := by
  simp only [UnpackedFloat.unpack, unpackMantissa_packComponents, unpackExponent_packComponents,
    UnpackedFloat.unpackSign_packComponents, Sign.ofBitVec_toBitVec]
  split
  · next top =>
    have hm := number.resolve_left (fun h => h top)
    simp only [hm, if_true, UnpackedFloat.neg]
  · split
    · split <;> rfl
    · rfl

theorem biased_ne_top {n : Nat} (fits : ¬ 2048 ≤ n + 1) : BitVec.ofNat 11 n ≠ -1#11 := by
  intro h
  have := congrArg BitVec.toNat h
  rw [BitVec.toNat_ofNat, Nat.mod_eq_of_lt (by omega)] at this
  have top : (-1#11).toNat = 2047 := rfl
  omega

theorem unpack_pack_neg (u : UnpackedFloat) :
    UnpackedFloat.unpack .binary64 (UnpackedFloat.pack .binary64 u.neg) =
      (UnpackedFloat.unpack .binary64 (UnpackedFloat.pack .binary64 u)).neg := by
  cases u with
  | notANumber => rfl
  | infinity s => cases s <;> rfl
  | zero s => cases s <;> rfl
  | finite s m e hm =>
    simp only [UnpackedFloat.neg, UnpackedFloat.pack]
    split
    · exact unpack_packComponents_neg _ _ _ (.inr rfl)
    · next fits =>
      split
      · exact unpack_packComponents_neg _ _ _ (.inl (biased_ne_top fits))
      · exact unpack_packComponents_neg _ _ _ (.inl (by decide))

/-! ## Places -/

/-- Where a number stands: the side of zero, then the exponent, then the mantissa. -/
def place : UnpackedFloat → Option (Int × Int × Int)
  | .notANumber => none
  | .infinity .negative => some (-2, 0, 0)
  | .finite .negative m e _ => some (-1, -e, -m)
  | .zero _ => some (0, 0, 0)
  | .finite .positive m e _ => some (1, e, m)
  | .infinity .positive => some (2, 0, 0)

def Before (p q : Int × Int × Int) : Prop :=
  p.1 < q.1 ∨ p.1 = q.1 ∧ (p.2.1 < q.2.1 ∨ p.2.1 = q.2.1 ∧ p.2.2 < q.2.2)

theorem compare_sign : compare Sign.negative Sign.positive = .lt ∧
    compare Sign.positive Sign.negative = .gt ∧ (∀ s : Sign, compare s s = .eq) :=
  ⟨rfl, rfl, fun s => by cases s <;> rfl⟩

theorem lt_iff_place {u v : UnpackedFloat} :
    u.lt v = true ↔ ∃ p q, place u = some p ∧ place v = some q ∧ Before p q := by
  rcases u with (_ | _) | _ | (_ | _) | ⟨_ | _, m, e, hm⟩ <;>
    rcases v with (_ | _) | _ | (_ | _) | ⟨_ | _, n, f, hn⟩ <;>
    simp [place, Before, UnpackedFloat.lt, UnpackedFloat.compare, Ordering.then_eq_lt,
      Ordering.swap_eq_lt, Ordering.then_eq_gt, compare_sign, Int.compare_eq_lt, Nat.compare_eq_lt,
      Int.compare_eq_gt, Nat.compare_eq_gt]

theorem isLE_then_iff {e f : Int} {m n : Nat} :
    ((compare e f).then (compare m n)).isLE = true ↔ e < f ∨ e = f ∧ m ≤ n := by
  simp [Ordering.isLE_then_iff_or, Int.compare_eq_lt, Nat.isLE_compare]

theorem isGE_then_iff {e f : Int} {m n : Nat} :
    ((compare e f).then (compare m n)).isGE = true ↔ f < e ∨ f = e ∧ n ≤ m := by
  rw [← Ordering.isLE_swap, Ordering.swap_then, Int.compare_swap, Nat.compare_swap, isLE_then_iff]

theorem le_iff_place {u v : UnpackedFloat} :
    u.le v = true ↔ ∃ p q, place u = some p ∧ place v = some q ∧ ¬ Before q p := by
  rcases u with (_ | _) | _ | (_ | _) | ⟨_ | _, m, e, hm⟩ <;>
    rcases v with (_ | _) | _ | (_ | _) | ⟨_ | _, n, f, hn⟩ <;>
    simp [place, Before, UnpackedFloat.le, UnpackedFloat.compare, compare_sign, isLE_then_iff,
      isGE_then_iff]
  all_goals omega

/-! ## The parts of a double -/

/-- The parts of a double. -/
def unpacked (x : Float) : UnpackedFloat := x.toModel.unpack

def packed (u : UnpackedFloat) : Float := .ofModel (.pack u)

theorem packed_unpacked (x : Float) : packed (unpacked x) = x := by
  have bits := congrArg UInt64.ofBitVec (UnpackedFloat.pack_unpack_of_valid x.toModel.valid)
  obtain ⟨⟨word, valid⟩⟩ := x
  simp only [packed, unpacked, Float.Model.pack, Float.Model.unpack, Float.ofModel.injEq,
    Float.Model.mk.injEq]
  exact bits

theorem unpacked_packed_unpacked (x : Float) : unpacked (packed (unpacked x)) = unpacked x := by
  rw [packed_unpacked]

theorem unpacked_packed_neg (u : UnpackedFloat) :
    unpacked (packed u.neg) = (unpacked (packed u)).neg :=
  unpack_pack_neg u

theorem add_eq (x y : Float) : x + y = packed (.add .binary64 (unpacked x) (unpacked y)) := rfl

theorem sub_eq (x y : Float) : x - y = packed (.sub .binary64 (unpacked x) (unpacked y)) := rfl

theorem lt_iff {x y : Float} : x < y ↔ (unpacked x).lt (unpacked y) = true := by
  show (decide _ = true) ↔ _
  exact decide_eq_true_iff

theorem le_iff {x y : Float} : x ≤ y ↔ (unpacked x).le (unpacked y) = true := by
  show (decide _ = true) ↔ _
  exact decide_eq_true_iff

theorem unpacked_zero : unpacked 0.0 = .zero .positive := rfl

theorem le_self_iff {x : Float} : x ≤ x ↔ unpacked x ≠ .notANumber := by
  rw [le_iff, le_iff_place]
  generalize unpacked x = u
  rcases u with (_ | _) | _ | _ | ⟨_ | _, m, e, hm⟩ <;> simp [place, Before]

/-! ## Magnitudes -/

theorem neg_abs (u : UnpackedFloat) : u.neg.abs = u.abs := by cases u <;> rfl

theorem unpacked_packed_neg_unpacked (x : Float) :
    unpacked (packed (unpacked x).neg) = (unpacked x).neg := by
  rw [unpacked_packed_neg, unpacked_packed_unpacked]

theorem unpacked_abs (x : Float) : unpacked (Scalar.abs x) = (unpacked x).abs := by
  unfold Scalar.abs
  split
  · next h =>
    rw [lt_iff, lt_iff_place, unpacked_zero] at h
    generalize unpacked x = u at h ⊢
    rcases u with (_ | _) | _ | _ | ⟨_ | _, m, e, hm⟩ <;> simp_all [place, Before, UnpackedFloat.abs]
  · next h =>
    have opposite := unpacked_packed_neg_unpacked x
    rw [lt_iff, lt_iff_place, unpacked_zero] at h
    rw [sub_eq, unpacked_zero]
    generalize unpacked x = u at h opposite ⊢
    rcases u with (_ | _) | _ | (_ | _) | ⟨_ | _, m, e, hm⟩ <;>
      first
      | rfl
      | exact opposite
      | (exfalso; simp [place, Before] at h)

theorem negligible_eq (x : Float) :
    Scalar.negligible x = (unpacked x).abs.lt (unpacked Scalar.tolerance) := by
  rw [← unpacked_abs, Bool.eq_iff_iff, ← lt_iff]
  exact decide_eq_true_iff

/-! ## Opposite differences -/

theorem round_neg (s : Sign) (m : Nat) (e : Int) :
    UnpackedFloat.round .binary64 (-s) m e = (UnpackedFloat.round .binary64 s m e).neg := by
  simp only [UnpackedFloat.round, UnpackedFloat.roundWithAccuracy]
  split <;> rfl

/-- The difference of two numbers and the opposite one round to opposite numbers. -/
theorem normalize_neg {k : Int} (h : k ≠ 0) (e : Int) :
    UnpackedFloat.normalize .binary64 (-k) e .positive =
      (UnpackedFloat.normalize .binary64 k e .positive).neg := by
  rcases Int.lt_or_gt_of_ne h with neg | pos
  · have below : compare k 0 = .lt := Int.compare_eq_lt.2 neg
    have above : compare (-k) 0 = .gt := Int.compare_eq_gt.2 (by omega)
    simp only [UnpackedFloat.normalize, below, above]
    exact round_neg .negative _ _
  · have above : compare k 0 = .gt := Int.compare_eq_gt.2 pos
    have below : compare (-k) 0 = .lt := Int.compare_eq_lt.2 (by omega)
    simp only [UnpackedFloat.normalize, below, above, Int.neg_neg]
    exact round_neg .positive _ _

theorem sub_opposite (u v : UnpackedFloat) :
    UnpackedFloat.sub .binary64 v u = (UnpackedFloat.sub .binary64 u v).neg ∨
      ∃ s t, UnpackedFloat.sub .binary64 u v = .zero s ∧ UnpackedFloat.sub .binary64 v u = .zero t := by
  rcases u with (_ | _) | _ | (_ | _) | ⟨s, m, e, hm⟩ <;>
    rcases v with (_ | _) | _ | (_ | _) | ⟨t, n, f, hn⟩
  case finite.finite =>
    simp only [UnpackedFloat.sub, Int.min_comm f e]
    generalize s.apply _ = a
    generalize t.apply _ = b
    by_cases h : a - b = 0
    · refine .inr ⟨.positive, .positive, ?_, ?_⟩
      · rw [h]; rfl
      · rw [show b - a = 0 by omega]; rfl
    · left
      rw [← Int.neg_sub a b]
      exact normalize_neg h _
  all_goals first
    | exact .inl rfl
    | exact .inr ⟨_, _, rfl, rfl⟩
    | (cases t <;> exact .inl rfl)

theorem unpacked_packed_zero (s : Sign) : unpacked (packed (.zero s)) = .zero s := by
  cases s <;> rfl

theorem abs_unpacked_sub (x y : Float) : (unpacked (x - y)).abs = (unpacked (y - x)).abs := by
  rw [sub_eq, sub_eq]
  rcases sub_opposite (unpacked x) (unpacked y) with h | ⟨s, t, hx, hy⟩
  · rw [h, unpacked_packed_neg, neg_abs]
  · rw [hx, hy, unpacked_packed_zero, unpacked_packed_zero]
    rfl

theorem abs_unpacked_add_zero (x : Float) : (unpacked (x + 0.0)).abs = (unpacked x).abs := by
  have same := unpacked_packed_unpacked x
  rw [add_eq, unpacked_zero]
  generalize unpacked x = u at same ⊢
  rcases u with (_ | _) | _ | (_ | _) | ⟨s, m, e, hm⟩
  case finite => exact congrArg _ same
  all_goals rfl

/-! ## The laws -/

theorem isZero_iff_unpacked {x : Float} :
    Scalar.isZero x = true ↔ ∃ s, unpacked x = .zero s := by
  rw [Scalar.isZero_iff, le_iff, le_iff, le_iff_place, le_iff_place, unpacked_zero]
  generalize unpacked x = u
  rcases u with (_ | _) | _ | (_ | _) | ⟨_ | _, m, e, hm⟩ <;> simp [place, Before]

theorem sub_notANumber (u : UnpackedFloat) :
    UnpackedFloat.sub .binary64 u .notANumber = .notANumber ∧
      UnpackedFloat.sub .binary64 .notANumber u = .notANumber := by
  cases u <;> exact ⟨rfl, rfl⟩

theorem unpacked_packed_notANumber : unpacked (packed .notANumber) = .notANumber := rfl

theorem nearest?_packed_notANumber :
    nearest? (packed .notANumber) = .error (.unbounded .notANumber) := rfl

theorem before_of_before_of_not_before {p q r : Int × Int × Int} (h : Before p q)
    (h' : ¬ Before r q) : Before p r := by
  unfold Before at *; omega

theorem before_of_not_before_of_before {p q r : Int × Int × Int} (h : ¬ Before q p)
    (h' : Before q r) : Before p r := by
  unfold Before at *; omega

end Double
open Double

instance : LawfulCoordinate Float where
  lt_irrefl x h := by
    obtain ⟨p, q, hp, hq, h⟩ := lt_iff_place.1 (lt_iff.1 h)
    rw [hp, Option.some.injEq] at hq
    subst hq
    unfold Before at h
    omega
  le_of_lt h := by
    obtain ⟨p, q, hp, hq, h⟩ := lt_iff_place.1 (lt_iff.1 h)
    refine le_iff.2 (le_iff_place.2 ⟨p, q, hp, hq, ?_⟩)
    unfold Before at *
    omega
  lt_of_lt_of_le {x y z} h h' := by
    obtain ⟨p, q, hp, hq, h⟩ := lt_iff_place.1 (lt_iff.1 h)
    obtain ⟨q', r, hq', hr, h'⟩ := le_iff_place.1 (le_iff.1 h')
    rw [hq, Option.some.injEq] at hq'
    subst hq'
    exact lt_iff.2 (lt_iff_place.2 ⟨p, r, hp, hr, before_of_before_of_not_before h h'⟩)
  lt_of_le_of_lt {x y z} h h' := by
    obtain ⟨p, q, hp, hq, h⟩ := le_iff_place.1 (le_iff.1 h)
    obtain ⟨q', r, hq', hr, h'⟩ := lt_iff_place.1 (lt_iff.1 h')
    rw [hq, Option.some.injEq] at hq'
    subst hq'
    exact lt_iff.2 (lt_iff_place.2 ⟨p, r, hp, hr, before_of_not_before_of_before h h'⟩)
  le_self_of_lt {x y} h := by
    obtain ⟨p, q, hp, hq, h⟩ := lt_iff_place.1 (lt_iff.1 h)
    refine ⟨le_self_iff.2 fun hx => ?_, le_self_iff.2 fun hy => ?_⟩
    · rw [hx] at hp; cases hp
    · rw [hy] at hq; cases hq
  le_of_not_lt {x y} hx hy h := by
    obtain ⟨p, _, hp, -, -⟩ := le_iff_place.1 (le_iff.1 hx)
    obtain ⟨q, _, hq, -, -⟩ := le_iff_place.1 (le_iff.1 hy)
    refine le_iff.2 (le_iff_place.2 ⟨q, p, hq, hp, fun hb => ?_⟩)
    exact h (lt_iff.2 (lt_iff_place.2 ⟨p, q, hp, hq, hb⟩))
  le_self_of_sub {x y} h := by
    rw [le_self_iff, sub_eq] at h
    refine ⟨le_self_iff.2 fun hx => h ?_, le_self_iff.2 fun hy => h ?_⟩
    · rw [hx, (sub_notANumber _).2, unpacked_packed_notANumber]
    · rw [hy, (sub_notANumber _).1, unpacked_packed_notANumber]
  le_self_of_nearest {x n} h := by
    refine le_self_iff.2 fun hx => ?_
    rw [← packed_unpacked x, hx, nearest?_packed_notANumber] at h
    cases h
  isZero_zero_sub {x} h := by
    obtain ⟨s, h⟩ := isZero_iff_unpacked.1 h
    refine isZero_iff_unpacked.2 ?_
    rw [sub_eq, h, unpacked_zero]
    cases s <;> exact ⟨_, rfl⟩
  negligible_add_zero x := by rw [negligible_eq, negligible_eq, abs_unpacked_add_zero]
  negligible_sub_comm x y := by rw [negligible_eq, negligible_eq, abs_unpacked_sub]
  zero_lt_tolerance := by decide +kernel
  zero_lt_minZoom := by decide +kernel
  minZoom_le_maxZoom := by decide +kernel

end HalfPlane
