/-
The corners that a learner has to name, how far each has come, and the points checked
by hand.
-/
import HalfPlane.Form

namespace HalfPlane

/-- How far a corner has come. -/
inductive Status where
  | unsolved
  | active
  | partly
  | solved
deriving DecidableEq, Inhabited

namespace Status

def name : Status → String
  | .unsolved => "unsolved"
  | .active => "active"
  | .partly => "partial"
  | .solved => "solved"

def ofName? (s : String) : Option Status :=
  [.unsolved, .active, .partly, .solved].find? (·.name = s)

/-- Whether coordinates are still wanted for a corner that is selected. -/
def asks : Status → Bool
  | .active | .partly => true
  | _ => false

end Status

/-- A corner on the board. Coordinates typed for it are compared with `target`. -/
structure Vertex (α : Type) where
  point : Point α
  target : Point α
  status : Status
  lines : String × String

/-- A point checked by hand, and whether it solved everything. -/
structure CheckedPoint (α : Type) where
  point : Point α
  ok : Bool

end HalfPlane
