/-
Doubles as scalars: the exact value of each, and the hypotenuse rounded once.
-/
import HalfPlane.Scalar

namespace HalfPlane.Double

/-- The rational `m * 2 ^ e`. -/
def dyadic (m : Nat) : Int → Rat
  | .ofNat e => ((m * Nat.pow 2 e : Nat) : Rat)
  | .negSucc e => mkRat m (Nat.pow 2 (e + 1))

/-- The parts of a double: its sign bit, its exponent field and its fraction field. -/
def fields (x : Float) : Bool × Nat × Nat :=
  let bits := x.toBits.toNat
  (Nat.pow 2 63 ≤ bits, bits / Nat.pow 2 52 % Nat.pow 2 11, bits % Nat.pow 2 52)

/-- The mantissa and the power of two of a finite double with these fields. -/
def parts (exponent fraction : Nat) : Nat × Int :=
  if exponent = 0 then (fraction, -1074) else (fraction + Nat.pow 2 52, (exponent : Int) - 1075)

def numeral (x : Float) : Numeral :=
  let (negative, exponent, fraction) := fields x
  if exponent = 2047 then
    if fraction = 0 then .infinite negative else .notANumber
  else
    let (m, e) := parts exponent fraction
    .finite negative (dyadic m e)

/-- The double nearest to the root of `m * 2 ^ e`. -/
def root (m : Nat) (e : Int) : Float :=
  if h : 0 < m then
    .ofModel (.pack (Float.Model.UnpackedFloat.sqrt .binary64 (.finite .positive m e h)))
  else 0.0

/-- The double nearest to the root of the exact sum of two squares. An infinite leg
makes it infinite, whatever the other is. -/
def hypot (x y : Float) : Float :=
  let (_, ex, fx) := fields x
  let (_, ey, fy) := fields y
  if ex = 2047 ∧ fx = 0 ∨ ey = 2047 ∧ fy = 0 then 1.0 / 0.0
  else if ex = 2047 ∨ ey = 2047 then 0.0 / 0.0
  else
    let (m, e) := parts ex fx
    let (n, f) := parts ey fy
    let low := min e f
    root (m * m * Nat.pow 4 (e - low).toNat + n * n * Nat.pow 4 (f - low).toNat) (2 * low)

def ofWritten : Written → Float
  | .decimal negative digits power =>
    let magnitude := Float.ofScientific digits (power < 0) power.natAbs
    if negative then -magnitude else magnitude
  | .infinite negative => if negative then -1.0 / 0.0 else 1.0 / 0.0
  | .notANumber => 0.0 / 0.0

end HalfPlane.Double

namespace HalfPlane

instance : Scalar Float where
  decideLT := inferInstance
  decideLE := inferInstance

instance : Hypot Float := ⟨Double.hypot⟩

instance : Rounding Float where
  floor? x := (Double.numeral x).floor?
  ceil? x := (Double.numeral x).ceil?

instance : Exact Float := ⟨Double.numeral⟩

instance : Readable Float := ⟨Double.ofWritten⟩

instance : Coordinate Float where

end HalfPlane
