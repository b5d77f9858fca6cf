/-
The corners of the claimed region: where two solved lines cross and no other solved
inequality objects.
-/
import HalfPlane.Geometry.Region

namespace HalfPlane

/-- Every way to single out one element of a list: those before it, itself, and those
after it. -/
def splits {β : Type} : List β → List (List β × β × List β)
  | [] => []
  | b :: rest =>
    ([], b, rest) :: (splits rest).map fun (before, c, after) => (b :: before, c, after)

/-- Every pair of elements, the earlier one first, with all the others. -/
def pairsWithOthers {β : Type} (l : List β) : List (β × β × List β) :=
  (splits l).flatMap fun (before, b, after) =>
    (splits after).map fun (between, c, rest) => (b, c, before ++ between ++ rest)

/-- A corner, and the labels of the two lines that form it. -/
structure Corner (α : Type) where
  point : Point α
  lines : String × String

namespace Corner
variable {α : Type} [Scalar α] [Hypot α]

def allAccept (p : Point α) : List (Inequality α) → Except Fault Bool
  | [] => .ok true
  | q :: rest => do
    if ← q.accepts p then allAccept p rest else return false

/-- The corners found so far, and the crossing of one more pair: it has to be accepted by
the others and must not be near a corner found before. -/
def extend (found : List (Corner α)) (pair : Inequality α × Inequality α × List (Inequality α)) :
    Except Fault (List (Corner α)) :=
  let (q, r, others) := pair
  match q.form.crossing r.form with
  | none => .ok found
  | some p => do
    if ← allAccept p others then
      if found.any fun corner => p.near corner.point then return found
      else return found ++ [⟨p, (q.label, r.label)⟩]
    else return found

/-- The corners of the region that the solved inequalities of a list claim. -/
def ofInequalities (qs : List (Inequality α)) : Except Fault (List (Corner α)) :=
  (pairsWithOthers (qs.filter (·.solution.isSolved))).foldlM extend []

end Corner
end HalfPlane
