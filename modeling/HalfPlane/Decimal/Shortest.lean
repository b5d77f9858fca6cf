/-
The shortest decimal that reads back as a given double.

The rationals that round to a double form an interval around it, its ends
included exactly when the mantissa is even. For one, two, three, … digits the two
neighbours of the double on that decimal grid are tested against the interval;
the first grid with a hit gives the digits, and of two hits the nearer one.
Seventeen digits always suffice.
-/
import HalfPlane.Decimal.Layout

namespace HalfPlane.Decimal

/-- The mantissa and the power of two of a positive double: 53 bits, or fewer at the
least exponent. -/
def binaryParts (q : Rat) : Nat × Int :=
  let n := q.num.natAbs
  let scale : Int := (n.log2 : Int) - q.den.log2 - 52
  let scale := max scale (-1074)
  if 0 ≤ scale then (n / Nat.pow 2 scale.toNat, scale)
  else (n * Nat.pow 2 (-scale).toNat / q.den, scale)

/-- An interval of rationals around a value, over a common denominator. -/
structure Neighbourhood where
  low : Nat
  value : Nat
  high : Nat
  denominator : Nat
  closed : Bool

/-- The rationals that round to the double `m * 2 ^ e`. The gap below a power of two
is half the gap above it. -/
def Neighbourhood.ofParts (m : Nat) (e : Int) : Neighbourhood :=
  let factor := Nat.pow 2 (e - 2).toNat
  let below := if m = Nat.pow 2 52 ∧ -1074 < e then 1 else 2
  { low := (4 * m - below) * factor
    value := 4 * m * factor
    high := (4 * m + 2) * factor
    denominator := Nat.pow 2 (2 - e).toNat
    closed := m % 2 = 0 }

/-- Whether `n / d` lies in the interval scaled by `ten`. -/
def Neighbourhood.holds (v : Neighbourhood) (ten n d : Nat) : Bool :=
  let n := n * v.denominator
  let low := v.low * ten * d
  let high := v.high * ten * d
  if v.closed then low ≤ n && n ≤ high else low < n && n < high

/-- The multiple of `10 ^ k` in the interval that is nearest to the value, if one of
the two around the value lies in it. A tie goes to the even multiple. -/
def Neighbourhood.onGrid (v : Neighbourhood) (k : Int) : Option Nat :=
  let ten := Nat.pow 10 (-k).toNat
  let unit := Nat.pow 10 k.toNat
  let step := unit * v.denominator
  let scaled := v.value * ten
  let low := scaled / step
  let rest := scaled - low * step
  let lowIn := v.holds ten (low * unit) 1
  let highIn := v.holds ten ((low + 1) * unit) 1
  if lowIn && highIn then
    if 2 * rest < step || (2 * rest = step && low % 2 = 0) then some low else some (low + 1)
  else if lowIn then some low
  else if highIn then some (low + 1)
  else none

/-- The digits found on the coarsest grid, and the power of ten of that grid. -/
def Neighbourhood.search (v : Neighbourhood) : Nat → Int → Nat × Int
  | 0, k => ((v.onGrid k).getD 0, k)
  | fuel + 1, k =>
    match v.onGrid k with
    | some n => (n, k)
    | none => v.search fuel (k - 1)

/-- The shortest digits of a positive double, and the power of ten of the first. -/
def shortestDigits (q : Rat) : List Char × Int :=
  let (m, e) := binaryParts q
  let (n, k) := (Neighbourhood.ofParts m e).search 17 (leadingPower q)
  let ds := digits n
  (withoutTrailing '0' ds, k + ds.length - 1)

/-- Shortest digits, positional from `0.0001` up to sixteen whole digits; a whole
number keeps a point and a zero. -/
def shortest (q : Rat) : String :=
  let layout : Layout := ⟨16, ['.', '0']⟩
  if q = 0 then layout.write ['0'] 0
  else
    let (ds, e) := shortestDigits q
    layout.write ds e

end HalfPlane.Decimal
