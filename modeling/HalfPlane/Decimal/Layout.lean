/-
How the digits of a number are set out on paper: with a fixed number of places,
or as significant digits that are positional near one and scientific elsewhere.
-/
import HalfPlane.Numeral

namespace HalfPlane.Decimal

/-- The digits of a natural number, most significant first. -/
def digits (n : Nat) : List Char := Nat.toDigits 10 n

/-- The digits of a natural number, with zeros in front up to `width`. -/
def paddedDigits (width n : Nat) : List Char :=
  List.replicate (width - (digits n).length) '0' ++ digits n

/-- A list without the copies of `c` at its end. -/
def withoutTrailing (c : Char) (cs : List Char) : List Char :=
  (cs.reverse.dropWhile (· == c)).reverse

/-! ## A fixed number of places -/

/-- A magnitude rounded to `places` decimal places, a half to the even digit. -/
def fixed (places : Nat) (q : Rat) : String :=
  let scale := Nat.pow 10 places
  let units := (nearestInteger (q * scale)).toNat
  let whole := digits (units / scale)
  if places = 0 then String.ofList whole
  else String.ofList (whole ++ '.' :: paddedDigits places (units % scale))

/-! ## Significant digits -/

/-- Which exponents are written positionally, and what marks a whole number. -/
structure Layout where
  /-- Exponents from -4 up to this one, not included, are positional. -/
  positionalBelow : Int
  /-- What follows a whole number in positional notation. -/
  wholeMark : List Char

/-- At least two digits of an exponent, after its sign. -/
def exponentMark (e : Int) : List Char :=
  'e' :: (if e < 0 then '-' else '+') :: paddedDigits 2 e.natAbs

/-- Set out significant digits, of which the first stands for the power `e` of ten.
The digits are not empty, and do not end in a zero unless they are one zero. -/
def Layout.write (l : Layout) (ds : List Char) (e : Int) : String :=
  String.ofList <|
    if -4 ≤ e ∧ e < l.positionalBelow then
      if 0 ≤ e then
        let n := e.toNat + 1
        let whole := ds.take n ++ List.replicate (n - ds.length) '0'
        match ds.drop n with
        | [] => whole ++ l.wholeMark
        | places => whole ++ '.' :: places
      else '0' :: '.' :: List.replicate (-e - 1).toNat '0' ++ ds
    else
      match ds with
      | [] => exponentMark e
      | [d] => d :: exponentMark e
      | d :: rest => d :: '.' :: rest ++ exponentMark e

def tenPower : Int → Rat
  | .ofNat k => (Nat.pow 10 k : Nat)
  | .negSucc k => mkRat 1 (Nat.pow 10 (k + 1))

/-- The power of ten of the first significant digit of a positive rational. -/
def leadingPower (q : Rat) : Int :=
  let guess : Int := (digits q.num.natAbs).length - (digits q.den).length
  if tenPower guess ≤ q then guess else guess - 1

/-- Six significant digits without trailing zeros; powers of ten from the sixth on,
or below the fourth place, are scientific. -/
def general (q : Rat) : String :=
  let layout : Layout := ⟨6, []⟩
  if q = 0 then layout.write ['0'] 0
  else
    let e := leadingPower q
    let units := (nearestInteger (q * tenPower (5 - e))).toNat
    let e := if units = 1000000 then e + 1 else e
    layout.write (withoutTrailing '0' (digits units)) e

end HalfPlane.Decimal
