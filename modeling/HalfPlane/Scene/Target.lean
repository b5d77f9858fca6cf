/-
What a pointer can hit: the boxes for choosing a side, and the corners.
-/
import HalfPlane.Geometry.Region
import HalfPlane.Scene.Mark
import HalfPlane.Vertex

namespace HalfPlane
variable {α : Type} [Scalar α] [Hypot α]

namespace Control

def boxWidth : α := 60.0
def boxHeight : α := 30.0

/-- The box of one side of an inequality, around the mark of the side. -/
def ofSide (q : Inequality α) (v : View α) (side : Side) : Except Fault (Option (Control α)) := do
  match ← q.form.mark side with
  | none => return none
  | some p =>
    let s := v.toScreen p
    let satisfies ← q.form.sideSatisfies side
    return some
      ⟨q.label, side, s.x - boxWidth / 2.0, s.y - boxHeight / 2.0, boxWidth, boxHeight, q.color,
        satisfies, .region⟩

/-- The boxes of the unsolved inequalities, side A before side B. -/
def ofInequalities (v : View α) : List (Inequality α) → Except Fault (List (Control α))
  | [] => .ok []
  | q :: rest =>
    if q.solution.isSolved then ofInequalities v rest
    else do
      let a ← ofSide q v .regionA
      let b ← ofSide q v .regionB
      let more ← ofInequalities v rest
      return a.toList ++ b.toList ++ more

/-- The box at a point of the screen. The later ones lie on top. -/
def at? (controls : List (Control α)) (s : Pixel α) : Option (Control α) :=
  controls.reverse.find? (·.contains s)

end Control

namespace Vertex

/-- How near a corner has to be hit, in pixels. -/
def hitRadius : α := 8.0

/-- How far a corner is from a point of the screen. -/
def pixelDistance (v : View α) (s : Pixel α) (vertex : Vertex α) : α :=
  let t := v.toScreen vertex.point
  Hypot.hypot (t.x - s.x) (t.y - s.y)

end Vertex

/-- Of the distances within `radius` the first one that no later one undercuts, with
what it is the distance of. -/
def closest? {β : Type} (radius : α) (candidates : List (α × β)) : Option (α × β) :=
  candidates.foldl
    (fun best c =>
      if c.1 ≤ radius && best.all (fun b => decide (c.1 < b.1)) then some c else best)
    none

namespace Vertex

/-- The corner nearest to a point of the screen, if one is within the radius. -/
def at? (vertices : List (Vertex α)) (v : View α) (s : Pixel α) (radius : α) : Option Nat :=
  (closest? radius (vertices.zipIdx.map fun (vertex, i) => (vertex.pixelDistance v s, i))).map (·.2)

end Vertex
end HalfPlane
