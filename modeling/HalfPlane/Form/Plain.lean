/-
A linear form as plain text, in a notation that the reader of formulas takes back.
-/
import HalfPlane.Form

namespace HalfPlane

/-- A number as short as it goes: an integer that is close enough stands for it, else
twelve places without the zeros at the end. There is no notation for powers of ten. -/
def plainNumber {α : Type} [Scalar α] [Exact α] (v : α) : Except Fault String := do
  let n ← nearest? v
  if Scalar.negligible (v - Scalar.ofInt n) then return toString n
  else
    let cs := (fixedText 12 v).toList
    return String.ofList (Decimal.withoutTrailing '.' (Decimal.withoutTrailing '0' cs))

namespace LinearForm
variable {α : Type} [Scalar α] [Exact α]

/-- The sign in front of a term: at the start of the text only a minus shows. -/
def signText (first : Bool) (coefficient : α) : String :=
  match first, decide (coefficient < 0.0) with
  | true, true => "-"
  | true, false => ""
  | false, true => " - "
  | false, false => " + "

/-- A term with its sign; the coefficient one does not show. -/
def plainTerm (first : Bool) (coefficient : α) (unknown : String) : Except Fault String := do
  let magnitude := Scalar.abs coefficient
  let factor ← if Scalar.negligible (magnitude - 1.0) then pure "" else plainNumber magnitude
  return signText first coefficient ++ factor ++ unknown

/-- The constant with its sign, never at the start of the text. -/
def plainConstant (c : α) : Except Fault String := do
  let magnitude ← plainNumber (Scalar.abs c)
  return signText false c ++ magnitude

/-- The terms that are not zero, then the comparison with zero. -/
def plain (f : LinearForm α) : Except Fault String := do
  let x ← if Scalar.isZero f.a then pure "" else plainTerm true f.a "x"
  let y ← if Scalar.isZero f.b then pure "" else plainTerm (Scalar.isZero f.a) f.b "y"
  let c ← if Scalar.isZero f.c then pure "" else plainConstant f.c
  return x ++ y ++ c ++ " " ++ f.operator.symbol ++ " 0"

end LinearForm
end HalfPlane
