/-
The linear form of a formula: everything on the left side, zero on the right.

The form of a formula whose two unknowns both vanish, or that says only that two
things differ, does not exist.
-/
import HalfPlane.Form
import HalfPlane.Formula.Shape

namespace HalfPlane
open Formula (Unknown Comparison)

/-- The operator of a comparison. None says that two things differ. -/
def Formula.Comparison.operator? : Comparison → Option Operator
  | .lt => some .lt
  | .le => some .le
  | .gt => some .gt
  | .ge => some .ge
  | .eq => some .eq
  | .ne => none

namespace LinearForm
variable {α : Type} [Scalar α]

/-- A coefficient without noise: the negligible ones are zero. -/
def settled (v : α) : α := if Scalar.negligible v then 0.0 else v + 0.0

/-- The form with settled coefficients, unless both unknowns vanish. -/
def ofCoefficients? (a b c : α) (comparison : Comparison) : Option (LinearForm α) :=
  match comparison.operator? with
  | none => none
  | some operator =>
    let a := settled a
    let b := settled b
    let c := settled c
    if Scalar.isZero a && Scalar.isZero b then none else some ⟨a, b, c, operator⟩

/-- The terms of one kind of a side, with a factor, added to `sum` one by one. -/
def collect (unknown : Option Unknown) (factor sum : α) (terms : List (Term α)) : α :=
  terms.foldl (fun sum t => if t.unknown = unknown then sum + factor * t.coefficient else sum) sum

/-- What a formula has of one unknown, or of the constant: left side less right side. -/
def collected (unknown : Option Unknown) (r : Formula α) : α :=
  collect unknown (-1.0) (collect unknown 1.0 0.0 r.left) r.right

/-- The form of a formula in one of the shapes. -/
def ofShape? : Shape α → Option (LinearForm α)
  | .standard x y constant comparison => ofCoefficients? x y constant comparison
  | .single .x k constant comparison => ofCoefficients? k 0.0 constant comparison
  | .single .y k constant comparison => ofCoefficients? 0.0 k constant comparison
  | .slope m k => ofCoefficients? (-m) 1.0 (-k) .eq
  | .general r =>
    ofCoefficients? (collected (some .x) r) (collected (some .y) r) (collected none r) r.comparison

def ofText? (text : String) : Option (LinearForm α) :=
  match Shape.ofText text with
  | .error _ => none
  | .ok shape => ofShape? shape

end LinearForm
end HalfPlane
