/-
The part of a segment that a window shows.

The segment is `start + t (stop - start)` for `t` from zero to one. Each edge of the
window asks for `p t ≤ q`, which cuts the range of `t` from one end; nothing is left
once the range is empty, or when an edge that runs along the segment has it outside.
-/
import HalfPlane.View

namespace HalfPlane.Clip
variable {α : Type} [Scalar α]
open Scalar

/-- The range of `t` that `p t ≤ q` leaves. -/
def cut (range : α × α) (edge : α × α) : Option (α × α) :=
  let (low, high) := range
  let (p, q) := edge
  if isZero p then if q < 0.0 then none else some range
  else
    let t := q / p
    let range := if p < 0.0 then (atLeast low t, high) else (low, atMost high t)
    if range.2 < range.1 then none else some range

/-- What the four edges of a window ask of a segment from `s` with the extent
`(dx, dy)`. -/
def edges (s : Pixel α) (dx dy width height : α) : List (α × α) :=
  [(-dx, s.x), (dx, width - s.x), (-dy, s.y), (dy, height - s.y)]

/-- The ends of the part of a segment inside a window, if any of it is inside. -/
def segment (s t : Pixel α) (width height : α) : Option (Pixel α × Pixel α) :=
  let dx := t.x - s.x
  let dy := t.y - s.y
  ((edges s dx dy width height).foldlM cut (0.0, 1.0)).map fun (low, high) =>
    (⟨s.x + low * dx, s.y + low * dy⟩, ⟨s.x + high * dx, s.y + high * dy⟩)

end HalfPlane.Clip
