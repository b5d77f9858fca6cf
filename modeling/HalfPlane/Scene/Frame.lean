/-
All marks of one frame, in the order they are painted: the background, the grid and the
axes, each inequality, the boxes for choosing a side, the corners, the checked points.
-/
import HalfPlane.Scene.Clip
import HalfPlane.Scene.Grid
import HalfPlane.Scene.Target

namespace HalfPlane.Scene
variable {α : Type}

/-- What a frame shows. -/
structure Content (α : Type) where
  inequalities : List (Inequality α)
  vertices : List (Vertex α)
  view : View α
  hovered : Option String
  selected : Option Nat
  checked : List (CheckedPoint α)

/-- The labels that are emphasised: the hovered one, and the lines of the selected
corner. -/
def emphasised (c : Content α) : List String :=
  c.hovered.toList ++
    match c.selected.bind fun i => c.vertices[i]? with
    | none => []
    | some vertex => [vertex.lines.1, vertex.lines.2]

section Marks
variable [Scalar α]

/-! ## Inequalities -/

def fill [Hypot α] (q : Inequality α) (v : View α) (strong : Bool) :
    Except Fault (List (Mark α)) := do
  match q.solution.side? with
  | none => return []
  | some side =>
    match ← q.form.shade (some side) with
    | none => return []
    | some corners =>
      return [.polygon ⟨corners.map v.toScreen, q.color, if strong then 0.4 else 0.2, .fill⟩]

/-- The name of a line stands well along its visible part, off the edge of the window. -/
def namePlace (near far : Pixel α) : Pixel α :=
  ⟨near.x + 0.85 * (far.x - near.x), near.y + 0.85 * (far.y - near.y)⟩

/-- The name of a line from `s` to `t` on the screen, if any of it is visible. -/
def lineName (q : Inequality α) (v : View α) (s t : Pixel α) : List (Mark α) :=
  match Clip.segment s t v.width v.height with
  | none => []
  | some (near, far) =>
    let place := namePlace near far
    [.label ⟨⟨place.x + 5.0, place.y - 5.0⟩, q.label, q.color, 14.0, .left, .bottom, true, .label⟩]

/-- The shading, the line and the name of an inequality. -/
def inequality [Hypot α] (v : View α) (strong : Bool) (q : Inequality α) :
    Except Fault (List (Mark α)) := do
  let shading ← fill q v strong
  let (p, r) ← q.form.boundary
  let s := v.toScreen p
  let t := v.toScreen r
  let line : Mark α :=
    .segment ⟨s, t, q.color, if strong then 3.0 else 2.0, q.form.operator.strict, .boundary⟩
  return shading ++ line :: lineName q v s t

/-! ## Corners and points -/

def statusColor : Status → String
  | .unsolved => "#000000"
  | .active => "#ff6d00"
  | .partly => "#c62828"
  | .solved => "#2e7d32"

/-- The coordinates of a point between parentheses, each written by `write`. -/
def coordinates (write : α → String) (p : Point α) : String :=
  "(" ++ write p.x ++ ", " ++ write p.y ++ ")"

/-- A text to the upper right of a point of the screen. -/
def annotation (s : Pixel α) (text color : String) (size : α) (layer : Layer) : Mark α :=
  .label ⟨⟨s.x + 8.0, s.y - 8.0⟩, text, color, size, .left, .bottom, false, layer⟩

/-- The marker of a corner, and its coordinates once it is solved. -/
def vertex [Exact α] (v : View α) (selected : Option Nat) (index : Nat) (vertex : Vertex α) :
    List (Mark α) :=
  let s := v.toScreen vertex.point
  let color := statusColor vertex.status
  let strong := selected = some index ∨ vertex.status = .active
  let marker : Mark α :=
    .marker ⟨s, if strong then 7.0 else 5.0, color, if strong then some Theme.activeLine else none,
      .vertex⟩
  if vertex.status = .solved then
    [marker, annotation s (coordinates (fixedText 1) vertex.point) color 12.0 .vertex]
  else [marker]

def checkedPoint [Exact α] (v : View α) (c : CheckedPoint α) : List (Mark α) :=
  let s := v.toScreen c.point
  let color := if c.ok then Theme.pointOk else Theme.pointBad
  [.marker ⟨s, 5.0, color, none, .point⟩,
    annotation s (coordinates generalText c.point) color 11.0 .point]

end Marks

/-! ## The frame -/

/-- The marks of one frame, in the order they are painted. -/
def marks [Coordinate α] (c : Content α) : Except Fault (List (Mark α)) := do
  let background : Mark α :=
    .rect ⟨0.0, 0.0, c.view.width, c.view.height, Theme.background, .background⟩
  let grid ← Grid.marks c.view
  let strong := emphasised c
  let inequalities ← c.inequalities.mapM fun q => inequality c.view (strong.contains q.label) q
  let controls ← Control.ofInequalities c.view c.inequalities
  let vertices := c.vertices.zipIdx.map fun (x, i) => vertex c.view c.selected i x
  let points := c.checked.map (checkedPoint c.view)
  return background :: grid ++ inequalities.flatten ++ controls.map .control ++
    vertices.flatten ++ points.flatten

end HalfPlane.Scene
