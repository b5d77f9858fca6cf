/-
The numbers that coordinates and coefficients are made of.

Lines, views and boards are written once, over any type with the operations of
`Scalar`: they run on doubles and can be reasoned about over an exact field. The
order tests need not be those of a linear order, so every definition says which
of two values it keeps when they do not compare. Distances, roundings, exact
values and written numbers are separate classes, because not every field has
them.
-/
import HalfPlane.Fault

namespace HalfPlane

/-- Arithmetic, decimal literals and decidable order. -/
class Scalar (α : Type) extends
    Add α, Sub α, Mul α, Div α, Neg α, LT α, LE α, OfScientific α where
  decideLT : (x y : α) → Decidable (x < y)
  decideLE : (x y : α) → Decidable (x ≤ y)

instance Scalar.decidableLT {α : Type} [Scalar α] (x y : α) : Decidable (x < y) :=
  Scalar.decideLT x y

instance Scalar.decidableLE {α : Type} [Scalar α] (x y : α) : Decidable (x ≤ y) :=
  Scalar.decideLE x y

/-- The length of the hypotenuse over two legs. -/
class Hypot (α : Type) where
  hypot : α → α → α

/-- The integers just below and just above a number. -/
class Rounding (α : Type) where
  floor? : α → Except Numeral.Unbounded Int
  ceil? : α → Except Numeral.Unbounded Int

/-- The exact value of a number, for its texts. -/
class Exact (α : Type) where
  numeral : α → Numeral

/-- What a written number says: digits times a power of ten, or one of the words for
a value that has no digits. -/
inductive Written where
  | decimal (negative : Bool) (digits : Nat) (power : Int)
  | infinite (negative : Bool)
  | notANumber
deriving DecidableEq, Inhabited

/-- The number nearest to a written one. -/
class Readable (α : Type) where
  ofWritten : Written → α

/-- The numbers a whole board is kept in. -/
class Coordinate (α : Type) extends Scalar α, Hypot α, Rounding α, Exact α, Readable α

namespace Scalar
variable {α : Type} [Scalar α]

/-- The one tolerance behind every "is this zero" and "is this on the line". -/
def tolerance : α := 1e-9

def reach : α := 10000.0

/-- The magnitude of a number. Of the two zeros it is the positive one. -/
def abs (x : α) : α := if 0.0 < x then x else 0.0 - x

def negligible (x : α) : Bool := abs x < tolerance

def same (x y : α) : Bool := x ≤ y && y ≤ x

def isZero (x : α) : Bool := same x 0.0

/-- `x`, if it lies above `low`, else `low`. -/
def atLeast (low x : α) : α := if low < x then x else low

/-- `x`, if it lies below `high`, else `high`. -/
def atMost (high x : α) : α := if x < high then x else high

def ofInt : Int → α
  | .ofNat n => OfScientific.ofScientific n false 0
  | .negSucc n => -OfScientific.ofScientific (n + 1) false 0

/-- A quotient, refused for a divisor that compares equal to zero. -/
def quotient (x y : α) : Except Fault α :=
  if isZero y then .error .divisionByZero else .ok (x / y)

end Scalar

/-! ## Texts of numbers -/

section Texts
variable {α : Type} [Exact α]

/-- The integer nearest to a number, a half to the even neighbour. -/
def nearest? (x : α) : Except Fault Int := (Exact.numeral x).nearest?.mapError .unbounded

def fixedText (places : Nat) (x : α) : String := (Exact.numeral x).text (Decimal.fixed places)

/-- A number with at most six significant digits. -/
def generalText (x : α) : String := (Exact.numeral x).text Decimal.general

def shortestText (x : α) : String := (Exact.numeral x).shortest

/-- A number to one decimal place, without the sign of a zero. -/
def oneDecimal (x : α) : String :=
  let s := fixedText 1 x
  if s = "-0.0" then "0.0" else s

end Texts

section Rounded
variable {α : Type} [Rounding α]

def floor? (x : α) : Except Fault Int := (Rounding.floor? x).mapError .unbounded

def ceil? (x : α) : Except Fault Int := (Rounding.ceil? x).mapError .unbounded

end Rounded
end HalfPlane
