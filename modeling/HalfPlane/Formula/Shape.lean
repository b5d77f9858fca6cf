/-
The shapes of formulas that a learner meets, told apart by their terms alone.

`standard` compares `k x ± l y ± c` with zero, `single` does so for one unknown, `slope`
is the equation `y = m x ± k`, and `general` is everything else.
-/
import HalfPlane.Formula.Sum

namespace HalfPlane
open Formula (Unknown Comparison)

/-- A formula in the first shape that fits it. -/
inductive Shape (α : Type) where
  | standard (x y constant : α) (comparison : Comparison)
  | single (unknown : Unknown) (coefficient constant : α) (comparison : Comparison)
  | slope (slope intercept : α)
  | general (formula : Formula α)

namespace Shape
variable {α : Type} [Scalar α]

/-- Whether a side is one constant that compares equal to zero. -/
def isZeroSide : List (Term α) → Bool
  | [⟨none, c⟩] => Scalar.isZero c
  | _ => false

/-- `k x ± l y` or `k x ± l y ± c` compared with zero. -/
def standard? (r : Formula α) : Option (Shape α) :=
  if isZeroSide r.right then
    match r.left with
    | [⟨some .x, a⟩, ⟨some .y, b⟩] => some (.standard a b 0.0 r.comparison)
    | [⟨some .x, a⟩, ⟨some .y, b⟩, ⟨none, c⟩] => some (.standard a b c r.comparison)
    | _ => none
  else none

/-- `k x`, `k y`, `k x ± c` or `k y ± c` compared with zero. -/
def single? (r : Formula α) : Option (Shape α) :=
  if isZeroSide r.right then
    match r.left with
    | [⟨some u, k⟩] => some (.single u k 0.0 r.comparison)
    | [⟨some u, k⟩, ⟨none, c⟩] => some (.single u k c r.comparison)
    | _ => none
  else none

def isBareY : List (Term α) → Bool
  | [⟨some .y, k⟩] => Scalar.same k 1.0
  | _ => false

/-- `y = m x`, `y = m x ± k` or `y = k`. -/
def slope? (r : Formula α) : Option (Shape α) :=
  if r.comparison = .eq ∧ isBareY r.left then
    match r.right with
    | [⟨some .x, m⟩] => some (.slope m 0.0)
    | [⟨some .x, m⟩, ⟨none, k⟩] => some (.slope m k)
    | [⟨none, k⟩] => some (.slope 0.0 k)
    | _ => none
  else none

/-- The first shape that fits a formula. -/
def ofFormula (r : Formula α) : Shape α :=
  (standard? r <|> single? r <|> slope? r).getD (.general r)

def ofText (text : String) : Except Formula.Misreading (Shape α) :=
  (Formula.ofText text).map ofFormula

end Shape
end HalfPlane
