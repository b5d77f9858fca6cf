/-
What a frame is painted with: rectangles, segments, polygons, labels, markers and the
controls for choosing a side, all in screen coordinates.
-/
import HalfPlane.View

namespace HalfPlane

/-! ## Colours -/

namespace Theme

def background : String := "#ffffff"
def grid : String := "#eeeeee"
def axis : String := "#000000"
def activeLine : String := "#ff6d00"
def pointOk : String := "#2e7d32"
def pointBad : String := "#aa3333"

end Theme

/-! ## Marks -/

/-- What part of the frame a mark belongs to. -/
inductive Layer where
  | background
  | grid
  | axis
  | fill
  | boundary
  | label
  | region
  | vertex
  | point
deriving DecidableEq

def Layer.name : Layer → String
  | .background => "background"
  | .grid => "grid"
  | .axis => "axis"
  | .fill => "fill"
  | .boundary => "boundary"
  | .label => "label"
  | .region => "region"
  | .vertex => "vertex"
  | .point => "point"

/-- Where a label stands from its point, across. -/
inductive Across where
  | left
  | centre
  | right
deriving DecidableEq

def Across.name : Across → String
  | .left => "left"
  | .centre => "center"
  | .right => "right"

/-- Where a label stands from its point, up and down. -/
inductive Upright where
  | top
  | centre
  | bottom
deriving DecidableEq

def Upright.name : Upright → String
  | .top => "top"
  | .centre => "center"
  | .bottom => "bottom"

structure Rect (α : Type) where
  x : α
  y : α
  width : α
  height : α
  fill : String
  layer : Layer

structure Segment (α : Type) where
  start : Pixel α
  stop : Pixel α
  color : String
  width : α
  dashed : Bool
  layer : Layer

structure Polygon (α : Type) where
  points : List (Pixel α)
  color : String
  alpha : α
  layer : Layer

structure Label (α : Type) where
  place : Pixel α
  text : String
  color : String
  size : α
  across : Across
  upright : Upright
  italic : Bool
  layer : Layer

structure Marker (α : Type) where
  place : Pixel α
  radius : α
  fill : String
  edge : Option String
  layer : Layer

/-- A box to click for claiming a side of an unsolved inequality. -/
structure Control (α : Type) where
  label : String
  side : Side
  x : α
  y : α
  width : α
  height : α
  color : String
  satisfies : Bool
  layer : Layer

def Side.caption : Side → String
  | .regionA => "Region 1"
  | .regionB => "Region 2"

namespace Control
variable {α : Type} [Scalar α]

/-- Whether a point of the screen lies in the box, its edges included. -/
def contains (c : Control α) (s : Pixel α) : Bool :=
  c.x ≤ s.x && s.x ≤ c.x + c.width && c.y ≤ s.y && s.y ≤ c.y + c.height

end Control

/-- One mark of a frame. -/
inductive Mark (α : Type) where
  | rect (r : Rect α)
  | segment (s : Segment α)
  | polygon (p : Polygon α)
  | label (l : Label α)
  | marker (m : Marker α)
  | control (c : Control α)

def Mark.layer {α : Type} : Mark α → Layer
  | .rect r => r.layer
  | .segment s => s.layer
  | .polygon p => p.layer
  | .label l => l.layer
  | .marker m => m.layer
  | .control c => c.layer

end HalfPlane
