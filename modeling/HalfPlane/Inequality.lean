/-
An inequality as the board keeps it: its form, its label and colour, its two texts, and
what the learner has claimed about it so far.
-/
import HalfPlane.Form

namespace HalfPlane

/-- What has been claimed of an inequality. The solution of an equation is its line, so
it is solved without a side. -/
inductive Solution where
  | unsolved
  | solved (side : Option Side)
deriving DecidableEq, Inhabited

namespace Solution

def isSolved : Solution → Bool
  | .unsolved => false
  | .solved _ => true

/-- The side claimed, if there is one. -/
def side? : Solution → Option Side
  | .unsolved => none
  | .solved side => side

/-- The name of the side claimed, or a word for none. -/
def typeName (s : Solution) : String :=
  match s.side? with
  | none => "none"
  | some side => side.name

/-- The state in which an inequality with this operator starts. -/
def start : Operator → Solution
  | .eq => .solved none
  | _ => .unsolved

end Solution

/-- A linear form with its place on the board. -/
structure Inequality (α : Type) where
  form : LinearForm α
  label : String
  color : String
  text : String
  latex : String
  solution : Solution

end HalfPlane
