/-
A linear form in the notation of a typesetter, with fractions for its coefficients.
-/
import HalfPlane.Form
import HalfPlane.Form.Fraction

namespace HalfPlane
namespace LinearForm

def denominatorBound : Nat := 1000000

/-- The fraction that stands for a coefficient. A coefficient without a value counts as
zero. -/
def coefficientFraction {α : Type} [Exact α] (v : α) : Rat :=
  match (Exact.numeral v).value? with
  | .error _ => 0
  | .ok r => nearestFraction denominatorBound r

/-- A fraction with one text above its bar and one below. -/
def latexFraction (above below : String) : String :=
  "\\frac\x7b" ++ above ++ "\x7d\x7b" ++ below ++ "\x7d"

/-- The magnitude of a term: a fraction times an unknown, or a bare fraction where the
unknown is empty. -/
def latexMagnitude (r : Rat) (unknown : String) : String :=
  let n := toString r.num.natAbs
  let factor :=
    if unknown = "" then n
    else if r.num.natAbs = 1 then unknown
    else n ++ " " ++ unknown
  if r.den = 1 then factor else latexFraction factor (toString r.den)

/-- The sign in front of a term. At the start only a minus shows, and an integer that is
the whole sum keeps it close. -/
def latexSign (first : Bool) (r : Rat) (unknown : String) : String :=
  match first, decide (r < 0) with
  | true, true => if unknown = "" ∧ r.den = 1 then "-" else "- "
  | true, false => ""
  | false, true => " - "
  | false, false => " + "

/-- The terms that are not zero, with their signs. -/
def latexTerms (first : Bool) : List (Rat × String) → String
  | [] => ""
  | (r, unknown) :: rest =>
    if r = 0 then latexTerms first rest
    else latexSign first r unknown ++ latexMagnitude r unknown ++ latexTerms false rest

def latexSymbol : Operator → String
  | .lt => "<"
  | .le => "\\leq"
  | .gt => ">"
  | .ge => "\\geq"
  | .eq => "="

/-- The terms in the order they are written: `x`, `y`, the constant. A lone unknown with
a minus goes behind a positive constant. -/
def latexOrder (a b c : Rat) : List (Rat × String) :=
  if 0 < c ∧ (a = 0 ∧ b < 0 ∨ a < 0 ∧ b = 0) then [(c, ""), (a, "x"), (b, "y")]
  else [(a, "x"), (b, "y"), (c, "")]

/-- The form in the typesetter's notation; a sum without terms is a zero. -/
def latex {α : Type} [Exact α] (f : LinearForm α) : String :=
  let terms :=
    latexTerms true
      (latexOrder (coefficientFraction f.a) (coefficientFraction f.b) (coefficientFraction f.c))
  (if terms = "" then "0" else terms) ++ " " ++ latexSymbol f.operator ++ " 0"

end LinearForm
end HalfPlane
