/-
A pointer, a wheel and fingers on a board: clicks, hovering, dragging and zooming.

A press that moves far enough becomes a drag for good, and its release is no click. Two
fingers pinch, and from then on nothing is a click until a new press.
-/
import HalfPlane.Board.Casting
import HalfPlane.Board.Naming
import HalfPlane.Scene.Target

namespace HalfPlane.Board
variable {α : Type} [Scalar α] [Hypot α]

/-! ## Measures -/

/-- How near a line has to be to be hovered, in pixels. -/
def hoverDistance : α := 10.0

/-- How far a press may move before it drags, in pixels. -/
def dragThreshold : α := 3.0

def wheelIn : α := 1.1
def wheelOut : α := 0.9

def pixelDistance (s t : Pixel α) : α := Hypot.hypot (s.x - t.x) (s.y - t.y)

/-! ## Clicks and hovering -/

/-- A click that hits nothing: the selected corner is let go. -/
def missed (b : Board α) : Board α :=
  match b.selected, b.activeVertex with
  | some i, some v => b.deselect i v
  | _, _ => { b with selected := none }

/-- A click selects the corner it hits, or else claims the side whose box it hits, or
else lets the selected corner go. -/
def click (b : Board α) (s : Pixel α) : Outcome α (Option Feedback) :=
  match Vertex.at? b.vertices b.view s Vertex.hitRadius with
  | some i =>
    let (result, b) := b.select i
    (result.map some, b)
  | none =>
    match Control.ofInequalities b.view b.inequalities with
    | .error e => (.error e, b)
    | .ok controls =>
      match Control.at? controls s with
      | none => (.ok none, b.missed)
      | some c =>
        let (result, b) := b.chooseRegion c.label (some c.side.name)
        (result.map some, b)

/-- How far each line is from a point of the screen, in pixels, with its label. -/
def lineDistances (b : Board α) (s : Pixel α) : List (α × String) :=
  let p := b.view.toPlane s
  b.inequalities.filterMap fun q =>
    (q.form.distance? p).map fun d => (d * b.view.zoom, q.label)

/-- Hover over the nearest line, if one is near enough. -/
def hover (b : Board α) (s : Pixel α) : Option String × Board α :=
  let hovered := (closest? hoverDistance (b.lineDistances s)).map (·.2)
  (hovered, { b with hovered })

/-! ## A pointer -/

def pointerDown (b : Board α) (s : Pixel α) : Board α :=
  { b with pointer := { b.pointer with press := some s, last := some s, dragging := false } }

/-- Move the plane along with a press that has become a drag. -/
def drag (b : Board α) (s : Pixel α) : Board α :=
  match b.pointer.press, b.pointer.last with
  | some press, some last =>
    let dragging := b.pointer.dragging || decide (dragThreshold < pixelDistance s press)
    { b with
      pointer := { b.pointer with last := some s, dragging }
      view := if dragging then b.view.pan (s.x - last.x) (s.y - last.y) else b.view }
  | _, _ => b

/-- Drag if a press is held, then hover. -/
def pointerMove (b : Board α) (s : Pixel α) : Option String × Board α := (b.drag s).hover s

/-- Release a press. If it never became a drag it was a click. -/
def pointerUp (b : Board α) (s : Pixel α) : Outcome α (Option Feedback) :=
  let wasClick := b.pointer.press.isSome && !b.pointer.dragging
  let b := { b with pointer := { b.pointer with press := none, last := none, dragging := false } }
  if wasClick then b.click s else (.ok none, b)

/-! ## A wheel and fingers -/

/-- Zoom in for a turn up, out for a turn down, around a point of the screen or the
middle of the window. -/
def wheel (b : Board α) (delta : α) (s : Option (Pixel α)) : Board α :=
  if Scalar.isZero delta then b
  else { b with view := b.view.zoomBy (if delta < 0.0 then wheelIn else wheelOut) s }

/-- Two fingers start a pinch, one finger is a press. -/
def touchStart (b : Board α) : List (Pixel α) → Board α
  | s :: t :: _ =>
    { b with
      pointer := { b.pointer with pinch := some ⟨pixelDistance t s, b.view.zoom⟩, press := none } }
  | [s] => b.pointerDown s
  | [] => b

/-- Zoom by the ratio of two distances, around the point halfway between the fingers. -/
def pinchTo (b : Board α) (pinch : Pinch α) (s t : Pixel α) : Board α :=
  if pinch.distance < Scalar.tolerance then b
  else
    let ratio := pixelDistance t s / pinch.distance
    let middle : Pixel α := ⟨(s.x + t.x) / 2.0, (s.y + t.y) / 2.0⟩
    { b with view := b.view.setZoomAt (pinch.zoom * ratio) middle }

/-- Two fingers of a pinch zoom; otherwise the first finger moves the pointer. -/
def touchMove (b : Board α) (touches : List (Pixel α)) : Board α :=
  match b.pointer.pinch, touches with
  | some pinch, s :: t :: _ => b.pinchTo pinch s t
  | _, s :: _ => (b.pointerMove s).2
  | _, [] => b

/-- Lift fingers; `touches` are the ones still down. The end of a pinch is no click. -/
def touchEnd (b : Board α) (touches : List (Pixel α)) : Outcome α (Option Feedback) :=
  match b.pointer.pinch with
  | some _ =>
    (.ok none,
      if touches.length < 2 then { b with pointer := { b.pointer with pinch := none } } else b)
  | none =>
    match b.pointer.last with
    | none => (.ok none, b)
    | some s => b.pointerUp s

end HalfPlane.Board
