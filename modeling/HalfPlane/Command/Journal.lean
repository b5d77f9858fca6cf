/-
What is told about a run while it goes on: one line for each step, worked out from the
board before and after it.
-/
import HalfPlane.Board.Casting
import HalfPlane.Board.Naming
import HalfPlane.Command.Settings

namespace HalfPlane.Command

/-- One thing told: how important it is, which part of the program it is about, and the
words. -/
structure Entry where
  level : Level
  part : String
  text : String
deriving DecidableEq

namespace Entry

def line (e : Entry) : String :=
  e.level.name ++ ":inequality_plane." ++ e.part ++ ":[inequality-plane] " ++ e.text

def board (level : Level) (text : String) : Entry := ⟨level, "board", text⟩

def parsing (text : String) : Entry := ⟨.debug, "parsing", text⟩

def geometry (text : String) : Entry := ⟨.debug, "geometry", text⟩

end Entry

namespace Journal
variable {α : Type} [Scalar α]

/-- Pairs of solved lines that do not cross, and how many corners there are. -/
def refreshed (b : Board α) : List Entry :=
  let pairs := pairsWithOthers (b.inequalities.filter (·.solution.isSolved))
  (pairs.filterMap fun (q, r, _) =>
    if (q.form.crossing r.form).isNone then
      some (.geometry (q.label ++ " and " ++ r.label ++ " do not cross"))
    else none) ++
  [.board .debug (toString b.vertices.length ++ " feasible vertices")]

/-- Why a text that is not in memory has no form. -/
def misread (α : Type) [Scalar α] (text : String) : List Entry :=
  match (Shape.ofText text : Except Formula.Misreading (Shape α)) with
  | .error e => [.parsing ("parse miss for " ++ Text.quoted text ++ ": " ++ e.message)]
  | .ok shape =>
    if (LinearForm.ofShape? shape).isNone then
      [.parsing ("degenerate relation " ++ Text.quoted text)]
    else []

/-- Casting a text that led from the board `before` to the board `after`. -/
def added (before after : Board α) (text : String) (f : Feedback) : List Entry :=
  let reading := if (before.register.lookUp text).1.isNone then misread α text else []
  match f with
  | .unreadable => reading ++ [.board .info ("rejected " ++ Text.quoted text)]
  | .duplicate => reading ++ [.board .info ("duplicate " ++ Text.quoted text)]
  | .added =>
    reading ++ refreshed after ++
      after.inequalities.getLast?.toList.map fun q =>
        .board .info ("added " ++ q.label ++ ": " ++ q.text)
  | _ => []

def claimed (after : Board α) (label : String) (side : Side) (f : Feedback) : List Entry :=
  refreshed after ++
    [.board .info
      (label ++ " solved with " ++ side.name ++
        (if f = .correct then " (correct)" else " (incorrect)"))]

def selected (index : Int) (f : Feedback) : List Entry :=
  match f with
  | .deselected => [.board .info ("vertex " ++ toString index ++ " deselected")]
  | .enterCoordinates => [.board .info ("vertex " ++ toString index ++ " active")]
  | _ => []

/-- Coordinates typed for the selected corner of the board `before`. -/
def submitted [Exact α] (before : Board α) (f : Feedback) : List Entry :=
  match f with
  | .correct =>
    before.activeVertex.toList.map fun v =>
      .board .info
        ("vertex (" ++ oneDecimal v.target.x ++ ", " ++ oneDecimal v.target.y ++ ") solved")
  | .graded xOk yOk => if xOk || yOk then [.board .info "vertex partially solved"] else []
  | _ => []

def rendered (marks : Nat) (path : String) : List Entry :=
  [⟨.debug, "render", "rendered " ++ toString marks ++ " ops to " ++ path⟩]

end Journal
end HalfPlane.Command
