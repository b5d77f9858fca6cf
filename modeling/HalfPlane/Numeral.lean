/-
The exact value behind a number: what its texts and its roundings to an integer
are computed from.

A number of the plane is a not-a-number, an infinity, or a rational with a sign
kept apart, so that the two zeros stay distinct. `nearest?`, `floor?` and `ceil?`
are the three ways to an integer; they fail exactly where there is no value to
round.
-/
namespace HalfPlane

/-- The exact value of a number. The sign of a finite one is kept apart from its
magnitude, which is not negative. -/
inductive Numeral where
  | notANumber
  | infinite (negative : Bool)
  | finite (negative : Bool) (magnitude : Rat)
deriving DecidableEq, Inhabited

/-- The integer nearest to a rational. A half goes to the even neighbour. -/
def nearestInteger (q : Rat) : Int :=
  let low := q.floor
  let rest := q - low
  if rest < 1 / 2 then low
  else if 1 / 2 < rest then low + 1
  else if low % 2 = 0 then low
  else low + 1

namespace Numeral

/-- Why a number has no integer beside it. -/
inductive Unbounded where
  | infinite
  | notANumber
deriving DecidableEq

/-- The rational a numeral stands for. -/
def value? : Numeral → Except Unbounded Rat
  | .notANumber => .error .notANumber
  | .infinite _ => .error .infinite
  | .finite negative magnitude => .ok (if negative then -magnitude else magnitude)

def nearest? (n : Numeral) : Except Unbounded Int := n.value?.map nearestInteger

def floor? (n : Numeral) : Except Unbounded Int := n.value?.map Rat.floor

def ceil? (n : Numeral) : Except Unbounded Int := n.value?.map Rat.ceil

/-- The text of a numeral whose finite magnitudes are written by `write`. -/
def text (write : Rat → String) : Numeral → String
  | .notANumber => "nan"
  | .infinite negative => (if negative then "-" else "") ++ "inf"
  | .finite negative magnitude => (if negative then "-" else "") ++ write magnitude

end Numeral
end HalfPlane
