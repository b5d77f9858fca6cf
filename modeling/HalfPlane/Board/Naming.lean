/-
Selecting corners, naming their coordinates, and checking points by hand.
-/
import HalfPlane.Board
import HalfPlane.Decimal.Reading

namespace HalfPlane.Board
variable {α : Type}

/-- No corner is active any more. -/
def calmed (vertices : List (Vertex α)) : List (Vertex α) :=
  vertices.map fun v => if v.status = .active then { v with status := .unsolved } else v

/-- Deselect a corner. If it was active it is unsolved again. -/
def deselect (b : Board α) (index : Nat) (v : Vertex α) : Board α :=
  let b := if v.status = .active then b.setStatus index .unsolved else b
  { b with selected := none }

/-- Select a corner, or deselect it if it was selected or active. A solved corner is
only shown; any other becomes the one active corner. -/
def select (b : Board α) (index : Int) : Outcome α Feedback :=
  match if 0 ≤ index then b.vertices[index.toNat]? else none with
  | none => (.error (.noSuchVertex index), b)
  | some v =>
    let i := index.toNat
    if b.selected = some i ∨ v.status = .active then (b.deselect i v).say .deselected
    else
      let b := { b with vertices := calmed b.vertices, selected := some i }
      if v.status = .solved then b.say .alreadySolved
      else (b.setStatus i .active).say .enterCoordinates

/-- A coordinate that was typed. A long minus counts as a minus, and a negative zero as
zero. -/
def readCoordinate [Scalar α] [Readable α] (text : String) : Option α :=
  let plain := (Text.trimmed text.toList).map fun c => if c = '−' then '-' else c
  (Decimal.read? (String.ofList plain)).map fun v => v + 0.0

/-- Grade the coordinates typed for the selected corner, to one decimal place. -/
def submit [Scalar α] [Readable α] [Exact α] (b : Board α) (xText yText : String) :
    Outcome α Feedback :=
  match b.selected, b.activeVertex with
  | some i, some v =>
    if !v.status.asks then b.say .noActive
    else if Text.allBlank xText || Text.allBlank yText then b.say .missingCoordinates
    else
      match (readCoordinate xText : Option α), (readCoordinate yText : Option α) with
      | some x, some y =>
        let xOk := oneDecimal x = oneDecimal v.target.x
        let yOk := oneDecimal y = oneDecimal v.target.y
        if xOk ∧ yOk then { b.setStatus i .solved with selected := none }.say .correct
        else if xOk ∨ yOk then (b.setStatus i .partly).say (.graded xOk yOk)
        else b.say (.graded false false)
      | _, _ => b.say .badNumber
  | _, _ => b.say .noActive

/-- Check a point against every inequality, and keep it on the board. -/
def check [Scalar α] [Exact α] (b : Board α) (p : Point α) : Outcome α Feedback :=
  let failed := b.inequalities.filter fun q => !q.form.satisfies p
  let b : Board α := { b with checked := b.checked ++ [⟨p, failed.isEmpty⟩] }
  let x := generalText p.x
  let y := generalText p.y
  if failed.isEmpty then b.say (.pointOk x y) else b.say (.pointBad x y (failed.map (·.label)))

end HalfPlane.Board
