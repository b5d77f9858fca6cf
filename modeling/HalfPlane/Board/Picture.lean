/-
A board seen from outside: what its frame shows, and a snapshot of it.
-/
import HalfPlane.Board
import HalfPlane.Json
import HalfPlane.Scene.Frame

namespace HalfPlane
variable {α : Type}

def Json.ofScalar [Exact α] (x : α) : Json := .number (Exact.numeral x)

def Inequality.toJson [Exact α] (q : Inequality α) : Json :=
  .object
    [("label", .text q.label), ("a", .ofScalar q.form.a), ("b", .ofScalar q.form.b),
      ("c", .ofScalar q.form.c), ("operator", .text q.form.operator.symbol), ("text", .text q.text),
      ("latex", .text q.latex), ("color", .text q.color), ("solved", .bool q.solution.isSolved),
      ("solutionType", .text q.solution.typeName)]

def Vertex.toJson [Exact α] (v : Vertex α) : Json :=
  .object
    [("x", .ofScalar v.point.x), ("y", .ofScalar v.point.y), ("status", .text v.status.name),
      ("lines", .list [.text v.lines.1, .text v.lines.2])]

def CheckedPoint.toJson [Exact α] (c : CheckedPoint α) : Json :=
  .object [("x", .ofScalar c.point.x), ("y", .ofScalar c.point.y), ("ok", .bool c.ok)]

namespace Board

def content (b : Board α) : Scene.Content α :=
  ⟨b.inequalities, b.vertices, b.view, b.hovered, b.selected, b.checked⟩

def scene [Coordinate α] (b : Board α) : Except Fault (List (Mark α)) := Scene.marks b.content

/-- A snapshot of a board whose window has its size written in a given way. -/
def snapshotSized [Exact α] (b : Board α) (width height : Json) : Json :=
  .object
    [("inequalities", .list (b.inequalities.map Inequality.toJson)),
      ("vertices", .list (b.vertices.map Vertex.toJson)),
      ("checked", .list (b.checked.map CheckedPoint.toJson)),
      ("view", .object
        [("width", width), ("height", height), ("zoom", .ofScalar b.view.zoom),
          ("origin", .list [.ofScalar b.view.origin.x, .ofScalar b.view.origin.y])]),
      ("selected", match b.selected with
        | none => .null
        | some i => .whole i),
      ("message", .text b.message)]

def snapshot [Exact α] (b : Board α) : Json :=
  b.snapshotSized (.ofScalar b.view.width) (.ofScalar b.view.height)

end Board
end HalfPlane
