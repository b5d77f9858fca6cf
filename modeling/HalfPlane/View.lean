/-
The window onto the plane: where its origin lies on the screen, and how many pixels a
unit takes.

Screen coordinates grow to the right and downwards. The zoom stays within its range
through every change, and a change of zoom keeps the point under its anchor in place.
-/
import HalfPlane.Form

namespace HalfPlane

/-- A point of the screen, in pixels. -/
structure Pixel (α : Type) where
  x : α
  y : α

/-- A window onto the plane. -/
structure View (α : Type) where
  width : α
  height : α
  zoom : α
  origin : Pixel α
  minZoom : α
  maxZoom : α

/-- The part of the plane that a window shows. -/
structure Bounds (α : Type) where
  xMin : α
  xMax : α
  yMin : α
  yMax : α

namespace View
variable {α : Type} [Scalar α]
open Scalar

/-! ## Measures of a board's window -/

def standardWidth : Int := 600
def standardHeight : Int := 600
def standardZoom : α := 40.0
def standardMinZoom : α := 20.0
def standardMaxZoom : α := 100.0

/-! ## Making a window -/

def clampZoom (v : View α) (zoom : α) : α := atMost v.maxZoom (atLeast v.minZoom zoom)

/-- A window with these measures; the zoom is brought into its range. Windows without
area and ranges that are empty or reach zero are refused. -/
def make [Exact α] (width height zoom : α) (origin : Pixel α) (minZoom maxZoom : α) :
    Except Fault (View α) :=
  if width ≤ 0.0 ∨ height ≤ 0.0 then
    .error (.emptyViewport (shortestText width) (shortestText height))
  else if 0.0 < minZoom ∧ minZoom ≤ maxZoom then
    let v : View α := ⟨width, height, zoom, origin, minZoom, maxZoom⟩
    .ok { v with zoom := v.clampZoom zoom }
  else .error (.emptyZoomRange (shortestText minZoom) (shortestText maxZoom))

/-- A window with the origin in its middle, and the usual range of zooms. -/
def centred [Exact α] (width height zoom : α) : Except Fault (View α) :=
  make width height zoom ⟨width / 2.0, height / 2.0⟩ standardMinZoom standardMaxZoom

/-! ## Between the plane and the screen -/

def toScreen (v : View α) (p : Point α) : Pixel α :=
  ⟨v.origin.x + p.x * v.zoom, v.origin.y - p.y * v.zoom⟩

def toPlane (v : View α) (s : Pixel α) : Point α :=
  ⟨(s.x - v.origin.x) / v.zoom, (v.origin.y - s.y) / v.zoom⟩

/-- The part of the plane between the corners of the window. -/
def bounds (v : View α) : Bounds α :=
  let topLeft := v.toPlane ⟨0.0, 0.0⟩
  let bottomRight := v.toPlane ⟨v.width, v.height⟩
  ⟨topLeft.x, bottomRight.x, bottomRight.y, topLeft.y⟩

def centre (v : View α) : Pixel α := ⟨v.width / 2.0, v.height / 2.0⟩

/-! ## Changes -/

/-- Change the zoom. The point of the plane under the anchor stays there. -/
def setZoomAt (v : View α) (zoom : α) (anchor : Pixel α) : View α :=
  let fixed := v.toPlane anchor
  let zoom := v.clampZoom zoom
  { v with zoom, origin := ⟨anchor.x - fixed.x * zoom, anchor.y + fixed.y * zoom⟩ }

/-- Change the zoom around an anchor, or around the middle of the window. -/
def setZoom (v : View α) (zoom : α) (anchor : Option (Pixel α)) : View α :=
  v.setZoomAt zoom (anchor.getD v.centre)

def zoomBy (v : View α) (factor : α) (anchor : Option (Pixel α)) : View α :=
  v.setZoom (v.zoom * factor) anchor

def pan (v : View α) (dx dy : α) : View α :=
  { v with origin := ⟨v.origin.x + dx, v.origin.y + dy⟩ }

end View
end HalfPlane
