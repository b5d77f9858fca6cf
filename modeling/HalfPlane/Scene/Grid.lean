/-
The grid of whole numbers, and the two axes with their arrows and numbers.

A grid line is drawn for each whole number between the bounds of the window. An axis is
drawn where it crosses the window, and numbers every grid line but its own crossing.
-/
import HalfPlane.Scene.Mark

namespace HalfPlane.Grid
variable {α : Type} [Scalar α]

/-- The integers from `low` to `high`, both included. -/
def integers (low high : Int) : List Int :=
  (List.range (high + 1 - low).toNat).map fun n : Nat => low + n

/-- The whole numbers that a window shows: across, and up and down. -/
def ticks [Rounding α] (v : View α) : Except Fault (List Int × List Int) := do
  let b := v.bounds
  let left ← ceil? b.xMin
  let right ← floor? b.xMax
  let low ← ceil? b.yMin
  let high ← floor? b.yMax
  return (integers left right, integers low high)

/-- Where the upright grid line of a whole number stands. -/
def across (v : View α) (i : Int) : α := v.origin.x + Scalar.ofInt i * v.zoom

/-- Where the level grid line of a whole number lies. -/
def upright (v : View α) (j : Int) : α := v.origin.y - Scalar.ofInt j * v.zoom

def line (layer : Layer) (color : String) (width : α) (start stop : Pixel α) : Mark α :=
  .segment ⟨start, stop, color, width, false, layer⟩

/-- The grid lines: the upright ones from left to right, then the level ones upwards. -/
def lines (v : View α) (xs ys : List Int) : List (Mark α) :=
  (xs.map fun i => line .grid Theme.grid 1.0 ⟨across v i, 0.0⟩ ⟨across v i, v.height⟩) ++
    ys.map fun j => line .grid Theme.grid 1.0 ⟨0.0, upright v j⟩ ⟨v.width, upright v j⟩

def arrow (points : List (Pixel α)) : Mark α := .polygon ⟨points, Theme.axis, 1.0, .axis⟩

def name (place : Pixel α) (text : String) (size : α) : Mark α :=
  .label ⟨place, text, Theme.axis, size, .centre, .centre, true, .axis⟩

def number (place : Pixel α) (n : Int) (a : Across) (u : Upright) : Mark α :=
  .label ⟨place, toString n, Theme.axis, 10.0, a, u, false, .axis⟩

/-- The level axis, with its arrow, its name and its numbers. -/
def xAxis (v : View α) (xs : List Int) : List (Mark α) :=
  let o := v.origin
  let w := v.width
  [line .axis Theme.axis 2.0 ⟨0.0, o.y⟩ ⟨w, o.y⟩,
    arrow [⟨w, o.y⟩, ⟨w - 10.0, o.y - 5.0⟩, ⟨w - 10.0, o.y + 5.0⟩],
    name ⟨w - 10.0, o.y - 15.0⟩ "x" 14.0] ++
  (xs.filter (· ≠ 0)).map fun i => number ⟨across v i, o.y + 5.0⟩ i .centre .top

/-- The upright axis, with its arrow, its name and its numbers. -/
def yAxis (v : View α) (ys : List Int) : List (Mark α) :=
  let o := v.origin
  [line .axis Theme.axis 2.0 ⟨o.x, v.height⟩ ⟨o.x, 0.0⟩,
    arrow [⟨o.x, 0.0⟩, ⟨o.x - 5.0, 10.0⟩, ⟨o.x + 5.0, 10.0⟩],
    name ⟨o.x + 15.0, 10.0⟩ "y" 14.0] ++
  (ys.filter (· ≠ 0)).map fun j => number ⟨o.x - 5.0, upright v j⟩ j .right .centre

def showsX (v : View α) : Bool := (0.0 : α) ≤ v.origin.y && v.origin.y ≤ v.height

def showsY (v : View α) : Bool := (0.0 : α) ≤ v.origin.x && v.origin.x ≤ v.width

/-- The axes that cross the window, and a name for the origin if both do. -/
def axes (v : View α) (xs ys : List Int) : List (Mark α) :=
  (if showsX v then xAxis v xs else []) ++ (if showsY v then yAxis v ys else []) ++
    if showsY v && showsX v then [name ⟨v.origin.x - 10.0, v.origin.y + 12.0⟩ "O" 12.0] else []

def marks [Rounding α] (v : View α) : Except Fault (List (Mark α)) := do
  let (xs, ys) ← ticks v
  return lines v xs ys ++ axes v xs ys

end HalfPlane.Grid
