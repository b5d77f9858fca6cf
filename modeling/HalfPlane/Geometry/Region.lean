/-
The two half planes of a line, the one a form asks for, and the one a learner claims.

Side A lies against the unit normal of the line and side B along it. A claimed side is
taken at its word: `accepts` follows the claim, whether or not it is right.
-/
import HalfPlane.Geometry.Line
import HalfPlane.Inequality

namespace HalfPlane
open Scalar

namespace LinearForm
variable {α : Type} [Scalar α] [Hypot α]

/-- The point of a side that lies `offset` away from the middle of the line. -/
def anchor (f : LinearForm α) (side : Side) (offset : α) : Except Fault (Option (Point α)) := do
  match ← f.unitNormal with
  | none => return none
  | some n =>
    let mid ← f.midpoint
    return some ⟨mid.x + side.sign * n.dx * offset, mid.y + side.sign * n.dy * offset⟩

/-- How far from the line the mark of a side stands. -/
def markOffset : α := 3.0

def mark (f : LinearForm α) (side : Side) : Except Fault (Option (Point α)) :=
  f.anchor side markOffset

/-- Whether the point that stands for a side solves the form. -/
def sideSatisfies (f : LinearForm α) (side : Side) : Except Fault Bool := do
  match ← f.mark side with
  | none => return false
  | some p => return f.satisfies p

def correctSide (f : LinearForm α) : Except Fault (Option Side) := do
  if ← f.sideSatisfies .regionA then return some .regionA
  else if ← f.sideSatisfies .regionB then return some .regionB
  else return none

/-- The direction into the half plane to shade: towards the claimed side, or else
towards the solutions. An equation has no half plane. -/
def fillDirection (f : LinearForm α) (claimed : Option Side) :
    Except Fault (Option (Direction α)) := do
  if f.operator = .eq then return none
  else
    match ← f.unitNormal with
    | none => return none
    | some n =>
      match claimed with
      | some .regionB => return some n
      | some .regionA => return some n.opposite
      | none =>
        let mid ← f.midpoint
        let probe : Point α := ⟨mid.x + n.dx, mid.y + n.dy⟩
        return some (if f.satisfies probe then n else n.opposite)

/-- The corners of the shaded rectangle: the stretch of the line between its far points,
and the same stretch moved as far again into the half plane. -/
def shade (f : LinearForm α) (claimed : Option Side) : Except Fault (Option (List (Point α))) := do
  match ← f.fillDirection claimed with
  | none => return none
  | some d =>
    let (p, q) ← f.boundary
    return some
      [p, q, ⟨q.x + d.dx * reach, q.y + d.dy * reach⟩, ⟨p.x + d.dx * reach, p.y + d.dy * reach⟩]

/-- Whether a point lies in what has been claimed: the open half plane of the claimed
side, with the line itself unless the operator is strict. The claim of an equation is
its line, and without a claim the solutions of the form count. -/
def accepts (f : LinearForm α) (solution : Solution) (p : Point α) : Except Fault Bool :=
  match solution with
  | .unsolved => .ok (f.satisfies p)
  | .solved side =>
    let v := f.evaluate p
    if negligible v then .ok (!f.operator.strict)
    else
      match side, f.operator with
      | none, _ => .ok false
      | some _, .eq => .ok false
      | some side, _ => do
        match ← f.unitNormal with
        | none => return false
        | some n =>
          let direction := side.sign * (f.a * n.dx + f.b * n.dy)
          return decide (0.0 < v * direction)

end LinearForm

namespace Inequality
variable {α : Type} [Scalar α] [Hypot α]

/-- Whether a point lies in what has been claimed of the inequality. -/
def accepts (q : Inequality α) (p : Point α) : Except Fault Bool := q.form.accepts q.solution p

end Inequality
end HalfPlane
