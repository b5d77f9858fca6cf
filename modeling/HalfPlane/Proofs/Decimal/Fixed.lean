/-
Decimal digits that are written and read again.

The digits of a number are worth the number (`digitsValue_digits`), with zeros in front of them
too, and zeros behind the places of a decimal fraction do not change it. So the digits that
remain of a magnitude with a fixed number of places are a literal for the magnitude rounded to
these places (`text_ofUnits`, `value_ofUnits`), which is off by half of the last place at most
(`abs_nearestInteger_sub_le`). With one place, a magnitude of at most half a tenth is written as
zero (`fixed_one_eq_zero_iff`).
-/
import HalfPlane.Proofs.Form.Meaning
import HalfPlane.Decimal.Layout

namespace HalfPlane
open Formula (Literal)

/-! ## Digits -/

namespace Text

theorem digitValue?_eq {c : Char} (h : c.isDigit = true) :
    digitValue? c = some (c.toNat - '0'.toNat) := by
  have within : 48 ≤ c.toNat ∧ c.toNat ≤ 57 := Char.isDigit_iff_toNat.1 h
  have ascii : zeros = 48 :: zeros.tail := rfl
  rw [digitValue?, ascii, List.find?_cons_of_pos (by simp; omega)]
  rfl

theorem isDigit_of_ascii {c : Char} (h : c.isDigit = true) : isDigit c = true := by
  rw [isDigit, digitValue?_eq h]
  rfl

theorem digitsValue_append (cs ds : List Char) :
    digitsValue (cs ++ ds) = digitsValue cs * 10 ^ ds.length + digitsValue ds := by
  induction ds using List.reverseRecOn with
  | nil => simp [digitsValue]
  | append_singleton ds d ih =>
    simp only [digitsValue, List.foldl_append, List.foldl_cons, List.foldl_nil,
      List.length_append, List.length_singleton, pow_succ] at ih ⊢
    rw [ih]
    ring

theorem digitsValue_zeros (k : Nat) : digitsValue (List.replicate k '0') = 0 := by
  induction k with
  | zero => rfl
  | succ k ih =>
    rw [List.replicate_succ', digitsValue_append, ih, Nat.zero_mul]
    decide

end Text

namespace Decimal
open Text

theorem isDigit_digits {n : Nat} : ∀ c ∈ digits n, isDigit c = true :=
  fun _ hc => isDigit_of_ascii (Nat.isDigit_of_mem_toDigits (by decide) (by decide) hc)

theorem digitsValue_digits (n : Nat) : digitsValue (digits n) = n := by
  have ascii : digitsValue (digits n) = Nat.ofDigitChars 10 (digits n) 0 := by
    refine List.foldl_ext _ _ 0 fun m c hc => ?_
    rw [digitValue?_eq (Nat.isDigit_of_mem_toDigits (by decide) (by decide) hc)]
    rfl
  rw [ascii]
  exact Nat.ofDigitChars_toDigits (by decide) (by decide)

theorem digits_ne_nil (n : Nat) : digits n ≠ [] := Nat.toDigits_ne_nil

section Padded
variable {width n : Nat}

theorem isDigit_paddedDigits : ∀ c ∈ paddedDigits width n, isDigit c = true := by
  intro c hc
  rcases List.mem_append.1 hc with hc | hc
  · rw [List.eq_of_mem_replicate hc]
    decide
  · exact isDigit_digits c hc

theorem digitsValue_paddedDigits : digitsValue (paddedDigits width n) = n := by
  rw [paddedDigits, digitsValue_append, digitsValue_zeros, digitsValue_digits]
  omega

theorem length_paddedDigits (some : 0 < width) (h : n < 10 ^ width) :
    (paddedDigits width n).length = width := by
  have short : (digits n).length ≤ width := (Nat.length_toDigits_le_iff (by decide) some).2 h
  rw [paddedDigits, List.length_append, List.length_replicate]
  omega

end Padded

/-! ## What is cut off at the end -/

section Trailing
variable {c : Char}

theorem withoutTrailing_append (as bs : List Char) {d : Char} (other : d ≠ c) :
    withoutTrailing c (as ++ d :: bs) = as ++ d :: withoutTrailing c bs := by
  have kept : (d :: as.reverse).dropWhile (· == c) = d :: as.reverse :=
    List.dropWhile_cons_of_neg (by simpa using other)
  have turned : (as ++ d :: bs).reverse = bs.reverse ++ d :: as.reverse := by simp
  rw [withoutTrailing, withoutTrailing, turned, List.dropWhile_append]
  split
  · next none =>
    rw [List.isEmpty_iff.1 none, kept]
    simp
  · simp

theorem withoutTrailing_of_last {cs : List Char} (h : ∀ d ∈ cs.getLast?, d ≠ c) :
    withoutTrailing c cs = cs := by
  rcases List.eq_nil_or_concat cs with rfl | ⟨as, d, rfl⟩
  · rfl
  · rw [List.concat_eq_append] at h ⊢
    exact withoutTrailing_append as [] (h d (by simp))

theorem withoutTrailing_concat (cs : List Char) :
    withoutTrailing c (cs ++ [c]) = withoutTrailing c cs := by
  rw [withoutTrailing, List.reverse_append, List.reverse_singleton, List.singleton_append,
    List.dropWhile_cons_of_pos (by simp), withoutTrailing]

theorem exists_trailing (c : Char) (cs : List Char) :
    ∃ k, cs = withoutTrailing c cs ++ List.replicate k c := by
  have all := List.takeWhile_append_dropWhile (p := (· == c)) (l := cs.reverse)
  have copies : cs.reverse.takeWhile (· == c) =
      List.replicate (cs.reverse.takeWhile (· == c)).length c :=
    List.eq_replicate_length.2 fun d hd => by
      simpa using List.all_eq_true.1 List.all_takeWhile d hd
  refine ⟨(cs.reverse.takeWhile (· == c)).length, ?_⟩
  rw [← List.reverse_replicate, ← copies, withoutTrailing, ← List.reverse_append, all,
    List.reverse_reverse]

theorem mem_of_mem_withoutTrailing {cs : List Char} {d : Char} (h : d ∈ withoutTrailing c cs) :
    d ∈ cs := by
  obtain ⟨k, split⟩ := exists_trailing c cs
  rw [split]
  exact List.mem_append_left _ h

end Trailing
end Decimal

/-! ## Literals that are written -/

namespace Formula.Literal
open Decimal Text

/-- The digits of a natural number. -/
def ofNat (n : Nat) : Literal := ⟨digits n, false, []⟩

/-- The digits of a number of units, of which `10 ^ places` make a whole, without the zeros at the
end of the places. -/
def ofUnits (places units : Nat) : Literal :=
  let rest := withoutTrailing '0' (paddedDigits places (units % 10 ^ places))
  ⟨digits (units / 10 ^ places), !rest.isEmpty, rest⟩

theorem proper_ofNat (n : Nat) : (ofNat n).Proper where
  whole := isDigit_digits
  places _ hc := (List.not_mem_nil hc).elim
  point _ := rfl
  digits none := digits_ne_nil n none.1

theorem text_ofNat (n : Nat) : (ofNat n).text = toString n := by
  have chars : (ofNat n).text = String.ofList (Decimal.digits n) := by simp [text, ofNat]
  rw [chars, Nat.toString_eq_repr, Nat.repr_eq_ofList_toDigits, Decimal.digits]

/-- A point with nothing behind it goes. -/
theorem text_withoutPoint {whole rest : List Char} (hw : ∀ c ∈ whole, isDigit c = true)
    (hr : ∀ c ∈ rest, isDigit c = true) :
    (⟨whole, !rest.isEmpty, rest⟩ : Literal).text =
      String.ofList (withoutTrailing '.' (whole ++ '.' :: rest)) := by
  have noPoint {cs : List Char} (h : ∀ c ∈ cs, isDigit c = true) : ∀ c ∈ cs.getLast?, c ≠ '.' := by
    rintro c hc rfl
    exact absurd (h _ (List.mem_of_getLast? hc)) (by decide)
  rw [text]
  cases rest with
  | nil =>
    rw [withoutTrailing_concat, withoutTrailing_of_last (noPoint hw)]
    simp
  | cons c cs =>
    have last : (whole ++ '.' :: c :: cs).getLast? = (c :: cs).getLast? := by
      rw [List.getLast?_append_of_ne_nil _ (by simp), List.getLast?_cons_cons]
    rw [withoutTrailing_of_last (last ▸ noPoint hr)]
    simp

section Units
variable {places units : Nat}

theorem isDigit_rest :
    ∀ c ∈ withoutTrailing '0' (paddedDigits places units), isDigit c = true :=
  fun c hc => isDigit_paddedDigits c (mem_of_mem_withoutTrailing hc)

theorem proper_ofUnits : (ofUnits places units).Proper where
  whole := isDigit_digits
  places := isDigit_rest
  point none := by simpa [ofUnits] using none
  digits none := digits_ne_nil _ none.1

/-- What is left of the digits with all places is the literal. -/
theorem text_ofUnits :
    (ofUnits places units).text = String.ofList (withoutTrailing '.' (withoutTrailing '0'
      (digits (units / 10 ^ places) ++ '.' :: paddedDigits places (units % 10 ^ places)))) := by
  rw [withoutTrailing_append _ _ (by decide)]
  exact text_withoutPoint isDigit_digits isDigit_rest

end Units

/-! ## Their values -/

section Value
variable {K : Type} [Field K] [LinearOrder K] [IsStrictOrderedRing K]

theorem value_ofNat (n : Nat) : ((ofNat n).value : K) = n := by
  rw [value_eq]
  simp [ofNat, digitsValue_digits]

theorem value_ofUnits {places : Nat} (some : 0 < places) (units : Nat) :
    ((ofUnits places units).value : K) = units / 10 ^ places := by
  obtain ⟨k, split⟩ := exists_trailing '0' (paddedDigits places (units % 10 ^ places))
  have length := length_paddedDigits some (Nat.mod_lt units (by positivity : 0 < 10 ^ places))
  have worth : digitsValue (paddedDigits places (units % 10 ^ places)) = units % 10 ^ places :=
    digitsValue_paddedDigits
  rw [value_eq]
  simp only [ofUnits]
  generalize withoutTrailing '0' (paddedDigits places (units % 10 ^ places)) = rest at split ⊢
  rw [split, digitsValue_append, digitsValue_zeros, List.length_replicate, Nat.add_zero] at worth
  rw [split, List.length_append, List.length_replicate] at length
  have scale : 10 ^ places = 10 ^ rest.length * 10 ^ k := by rw [← pow_add, length]
  have parts : (units / 10 ^ places * 10 ^ rest.length + digitsValue rest) * 10 ^ k = units := by
    calc (units / 10 ^ places * 10 ^ rest.length + digitsValue rest) * 10 ^ k
        = units / 10 ^ places * (10 ^ rest.length * 10 ^ k) + digitsValue rest * 10 ^ k := by ring
      _ = units / 10 ^ places * 10 ^ places + units % 10 ^ places := by rw [← scale, worth]
      _ = units := Nat.div_add_mod' ..
  have exact : ((units / 10 ^ places * 10 ^ rest.length + digitsValue rest : ℕ) : K) * 10 ^ k =
      units := by exact_mod_cast parts
  have scaled : (10 : K) ^ places = 10 ^ rest.length * 10 ^ k := by rw [← pow_add, length]
  rw [digitsValue_append, digitsValue_digits, ← exact, scaled, mul_div_mul_right]
  positivity

end Value
end Formula.Literal

/-! ## Rounding to an integer -/

theorem abs_nearestInteger_sub_le (q : ℚ) : |(nearestInteger q : ℚ) - q| ≤ 1 / 2 := by
  have low := Rat.floor_le q
  have high := Rat.lt_floor_add_one q
  push_cast at high
  simp only [nearestInteger, abs_le]
  split
  · constructor <;> linarith
  · split
    · push_cast
      constructor <;> linarith
    · split
      · constructor <;> linarith
      · push_cast
        constructor <;> linarith

theorem nearestInteger_intCast (n : ℤ) : nearestInteger (n : ℚ) = n := by
  have close := abs_nearestInteger_sub_le n
  have near : |((nearestInteger (n : ℚ) - n : ℤ) : ℚ)| < ((1 : ℤ) : ℚ) := by
    push_cast
    linarith
  rw [← Int.cast_abs, Int.cast_lt, Int.abs_lt_one_iff] at near
  exact sub_eq_zero.1 near

theorem Decimal.fixed_eq {places : ℕ} (some : 0 < places) (q : ℚ) :
    fixed places q = String.ofList
      (digits ((nearestInteger (q * 10 ^ places)).toNat / 10 ^ places) ++
        '.' :: paddedDigits places ((nearestInteger (q * 10 ^ places)).toNat % 10 ^ places)) := by
  simp only [fixed, if_neg some.ne', Nat.pow_eq, Nat.cast_pow, Nat.cast_ofNat]

theorem nearestInteger_nonneg {q : ℚ} (h : 0 ≤ q) : 0 ≤ nearestInteger q := by
  have close := abs_le.1 (abs_nearestInteger_sub_le q)
  have cast : ((-1 : ℤ) : ℚ) < nearestInteger q := by
    push_cast
    linarith
  exact Int.add_one_le_of_lt (Int.cast_lt.1 cast)

/-- A half is rounded down to zero, which is even. -/
theorem nearestInteger_nonpos_iff {q : ℚ} : nearestInteger q ≤ 0 ↔ q ≤ 1 / 2 := by
  have close := abs_le.1 (abs_nearestInteger_sub_le q)
  constructor
  · intro nonpos
    have cast : (nearestInteger q : ℚ) ≤ 0 := by exact_mod_cast nonpos
    linarith
  · intro small
    rcases small.lt_or_eq with below | rfl
    · have cast : (nearestInteger q : ℚ) < (1 : ℤ) := by
        push_cast
        linarith
      exact Int.le_of_lt_add_one (Int.cast_lt.1 cast)
    · decide +kernel

/-! ## A zero with one place -/

namespace Decimal
open Text

/-- A magnitude is written as zero with one place if it is at most half a unit of that place. -/
theorem fixed_one_eq_zero_iff {q : ℚ} : fixed 1 q = "0.0" ↔ q ≤ 1 / 20 := by
  have units : q ≤ 1 / 20 ↔ (nearestInteger (q * 10 ^ 1)).toNat = 0 := by
    rw [Int.toNat_eq_zero, nearestInteger_nonpos_iff]
    constructor <;> intro <;> linarith
  rw [units, fixed_eq one_pos]
  generalize (nearestInteger (q * 10 ^ 1)).toNat = n
  constructor
  · intro zero
    have chars : digits (n / 10 ^ 1) ++ '.' :: paddedDigits 1 (n % 10 ^ 1) = ['0', '.', '0'] :=
      String.ofList_injective zero
    have one : (paddedDigits 1 (n % 10 ^ 1)).length = 1 :=
      length_paddedDigits one_pos (Nat.mod_lt n (by decide))
    have split : digits (n / 10 ^ 1) = ['0'] ∧
        '.' :: paddedDigits 1 (n % 10 ^ 1) = ['.', '0'] :=
      List.append_inj' chars (by simpa using one)
    have whole : digitsValue (digits (n / 10 ^ 1)) = n / 10 ^ 1 := digitsValue_digits _
    have place : digitsValue (paddedDigits 1 (n % 10 ^ 1)) = n % 10 ^ 1 := digitsValue_paddedDigits
    have zero : digitsValue ['0'] = 0 := by decide
    rw [split.1, zero] at whole
    rw [(List.cons.inj split.2).2, zero] at place
    omega
  · rintro rfl
    decide +kernel

/-- A magnitude is written without a sign. -/
theorem fixed_one_ne {q : ℚ} {s : String} : fixed 1 q ≠ "-" ++ s := by
  intro same
  have chars := congrArg String.toList same
  rw [fixed_eq one_pos, String.toList_ofList, String.toList_append] at chars
  generalize (nearestInteger (q * 10 ^ 1)).toNat / 10 ^ 1 = n at chars
  obtain ⟨d, ds, some⟩ := List.exists_cons_of_ne_nil (digits_ne_nil n)
  have digit : isDigit d = true := isDigit_digits (n := n) d (by simp [some])
  rw [some] at chars
  have minus : d = '-' := (List.cons.inj chars).1
  rw [minus] at digit
  exact absurd digit (by decide)

end Decimal

end HalfPlane
