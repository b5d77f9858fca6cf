/-
The calls that paint a frame on a figure: one or two for each mark.

A call is a name with arguments and named options. Lengths of a frame are pixels, and
the widths of lines are given in points, of which there are 72 to the inch.
-/
import HalfPlane.Scene.Mark

namespace HalfPlane.Drawing

/-- What a call is given. A patch is a shape that is made before it is added. -/
inductive Value (α : Type) where
  | number (x : α)
  | text (s : String)
  | flag (b : Bool)
  | list (items : List (Value α))
  | patch (shape : String) (arguments : List (Value α)) (options : List (String × Value α))

/-- A call on the figure or on its axes. -/
structure Call (α : Type) where
  name : String
  arguments : List (Value α)
  options : List (String × Value α)

variable {α : Type} [Scalar α]

/-- Pixels to the inch. -/
def dpi : α := 100.0

def points (width : α) : α := width * 72.0 / dpi

def pair (x y : α) : Value α := .list [.number x, .number y]

def addPatch (shape : String) (arguments : List (Value α)) (options : List (String × Value α)) :
    Call α :=
  ⟨"add_patch", [.patch shape arguments options], []⟩

/-! ## Calls for each kind of mark -/

def rect (r : Rect α) : Call α :=
  addPatch "Rectangle" [pair r.x r.y, .number r.width, .number r.height]
    [("color", .text r.fill), ("zorder", .number 0.0)]

/-- Dashes and gaps of five points, or a line without gaps. -/
def lineStyle (dashed : Bool) : Value α :=
  if dashed then .list [.number 0.0, pair 5.0 5.0] else .text "solid"

def segment (s : Segment α) : Call α :=
  ⟨"plot", [pair s.start.x s.stop.x, pair s.start.y s.stop.y],
    [("color", .text s.color), ("linewidth", .number (points s.width)),
      ("linestyle", lineStyle s.dashed), ("solid_capstyle", .text "butt")]⟩

def polygon (p : Polygon α) : Call α :=
  addPatch "Polygon" [.list (p.points.map fun s => pair s.x s.y)]
    [("closed", .flag true), ("facecolor", .text p.color), ("edgecolor", .text "none"),
      ("alpha", .number p.alpha)]

def label (l : Label α) : Call α :=
  ⟨"text", [.number l.place.x, .number l.place.y, .text l.text],
    [("color", .text l.color), ("fontsize", .number l.size), ("ha", .text l.across.name),
      ("va", .text l.upright.name), ("style", .text (if l.italic then "italic" else "normal"))]⟩

def marker (m : Marker α) : Call α :=
  addPatch "Circle" [pair m.place.x m.place.y, .number m.radius]
    [("facecolor", .text m.fill), ("edgecolor", .text (m.edge.getD m.fill)),
      ("linewidth", .number (points 2.0)), ("zorder", .number 5.0)]

def box (c : Control α) : Call α :=
  addPatch "Rectangle" [pair c.x c.y, .number c.width, .number c.height]
    [("facecolor", .text "#ffffff"), ("edgecolor", .text c.color),
      ("linewidth", .number (points 1.0)), ("zorder", .number 4.0)]

def caption (c : Control α) : Call α :=
  ⟨"text",
    [.number (c.x + c.width / 2.0), .number (c.y + c.height / 2.0), .text c.side.caption],
    [("color", .text c.color), ("fontsize", .number 9.0), ("ha", .text "center"),
      ("va", .text "center"), ("zorder", .number 4.0)]⟩

def ofMark : Mark α → List (Call α)
  | .rect r => [rect r]
  | .segment s => [segment s]
  | .polygon p => [polygon p]
  | .label l => [label l]
  | .marker m => [marker m]
  | .control c => [box c, caption c]

end HalfPlane.Drawing
