/-
The line of a form and the points on either side of it.

`evaluate` tells the sides apart, and a value within the tolerance counts as on the
line. The line itself is handled through two far points on it; a form whose
coefficients are both missing has none, and dividing by its coefficient is refused.
-/
import HalfPlane.Form

namespace HalfPlane

/-- Whether two points are the same up to the tolerance. -/
def Point.near {α : Type} [Scalar α] (p q : Point α) : Bool :=
  Scalar.negligible (p.x - q.x) && Scalar.negligible (p.y - q.y)

namespace LinearForm
variable {α : Type} [Scalar α]
open Scalar

def evaluate (f : LinearForm α) (p : Point α) : α := f.a * p.x + f.b * p.y + f.c

/-- Whether a point solves the form. On the line the strict operators fail and the others
hold; off the line an equation fails. -/
def satisfies (f : LinearForm α) (p : Point α) : Bool :=
  let v := f.evaluate p
  if negligible v then !f.operator.strict
  else if f.operator.lessType then v < 0.0
  else if f.operator.greaterType then 0.0 < v
  else false

/-- Two far points of the line, from the lower to the higher `x`; on a line that is
upright, from the lower to the higher `y`. -/
def boundary (f : LinearForm α) : Except Fault (Point α × Point α) :=
  if tolerance ≤ abs f.b then
    .ok (⟨-reach, (-f.c - f.a * -reach) / f.b⟩, ⟨reach, (-f.c - f.a * reach) / f.b⟩)
  else do
    let x ← quotient (-f.c) f.a
    return (⟨x, -reach⟩, ⟨x, reach⟩)

def halfway (p q : Point α) : Point α := ⟨(p.x + q.x) / 2.0, (p.y + q.y) / 2.0⟩

/-- The point of the line halfway between its two far points. -/
def midpoint (f : LinearForm α) : Except Fault (Point α) := do
  let (p, q) ← f.boundary
  return halfway p q

/-- The point that two lines have in common. Lines that run side by side, or are one,
have none. -/
def crossing (f g : LinearForm α) : Option (Point α) :=
  let det := f.a * g.b - g.a * f.b
  if negligible det then none
  else
    let x := (f.b * g.c - g.b * f.c) / det
    let y := (g.a * f.c - f.a * g.c) / det
    some ⟨x + 0.0, y + 0.0⟩

section Length
variable [Hypot α]

/-- The unit normal to the left of the way from the first to the second far point. -/
def unitNormal (f : LinearForm α) : Except Fault (Option (Direction α)) := do
  let (p, q) ← f.boundary
  let dx := q.x - p.x
  let dy := q.y - p.y
  let length := Hypot.hypot dx dy
  if length < tolerance then return none
  else return some ⟨-dy / length, dx / length⟩

/-- How far a point is from the line. No point has a distance from a form without a
line. -/
def distance? (f : LinearForm α) (p : Point α) : Option α :=
  let norm := Hypot.hypot f.a f.b
  if norm < tolerance then none else some (abs (f.evaluate p) / norm)

/-- The form scaled to a unit normal whose first coefficient that counts is positive. -/
def unitForm (f : LinearForm α) : Except Fault (LinearForm α) := do
  let norm := Hypot.hypot f.a f.b
  let a ← quotient f.a norm
  let b ← quotient f.b norm
  let c ← quotient f.c norm
  let lead := if tolerance ≤ abs a then a else b
  if lead < 0.0 then return ⟨-a, -b, -c, f.operator.reversed⟩
  else return ⟨a, b, c, f.operator⟩

/-- Whether two forms have the same solutions: their unit forms agree up to the
tolerance. -/
def sameAs (f g : LinearForm α) : Except Fault Bool := do
  let u ← f.unitForm
  let v ← g.unitForm
  return u.operator = v.operator && negligible (u.a - v.a) && negligible (u.b - v.b) &&
    negligible (u.c - v.c)

end Length
end LinearForm
end HalfPlane
