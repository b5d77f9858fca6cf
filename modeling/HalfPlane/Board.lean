/-
The board: the inequalities cast on it, the corners of the region they claim, and what
goes on between it and the learner.

An operation gives its result together with the board afterwards, so a failure does not
undo what happened before it. The corners are worked out again after each change to the
inequalities or to what is claimed of them, and a corner that is still there keeps its
status and stays selected.
-/
import HalfPlane.Board.Feedback
import HalfPlane.Debounce
import HalfPlane.Geometry.Corners
import HalfPlane.Register
import HalfPlane.Vertex
import HalfPlane.View

namespace HalfPlane

/-- A pinch of two fingers: how far apart they were at first, and the zoom then. -/
structure Pinch (α : Type) where
  distance : α
  zoom : α

/-- Where a pointer was pressed, where it was last, and whether it drags the plane. -/
structure Pointer (α : Type) where
  press : Option (Pixel α)
  last : Option (Pixel α)
  dragging : Bool
  pinch : Option (Pinch α)

/-- A text that waits to be checked, and the generation of the board it was typed on. -/
structure Validation where
  text : String
  generation : Nat
deriving DecidableEq

/-- A board. -/
structure Board (α : Type) where
  register : Register α
  view : View α
  inequalities : List (Inequality α)
  vertices : List (Vertex α)
  checked : List (CheckedPoint α)
  /-- What was said last. -/
  said : Option Feedback
  selected : Option Nat
  hovered : Option String
  /-- How often the board has been reset. -/
  generation : Nat
  pointer : Pointer α
  validator : Debouncer Validation

/-- The result of an operation, and the board afterwards. -/
abbrev Outcome (α β : Type) := Except Fault β × Board α

namespace Board
variable {α : Type}

/-- How long typing has to pause before a text is checked, in milliseconds. -/
def standardDelay : Int := 300

def make [Scalar α] [Exact α] (width height zoom : α) (palette : List String) (delay : Int) :
    Except Fault (Board α) := do
  let register ← Register.ofPalette palette
  let view ← View.centred width height zoom
  let validator ← Debouncer.make delay
  return {
    register, view, validator
    inequalities := [], vertices := [], checked := []
    said := none, selected := none, hovered := none, generation := 0
    pointer := ⟨none, none, false, none⟩ }

/-- The words of what was said last. -/
def message (b : Board α) : String :=
  match b.said with
  | none => ""
  | some f => f.message

def say (b : Board α) (f : Feedback) : Outcome α Feedback := (.ok f, { b with said := some f })

def find? (b : Board α) (label : String) : Option (Inequality α) :=
  b.inequalities.find? fun q => q.label == label

/-- The inequality with a label; asking for an unknown label fails. -/
def get (b : Board α) (label : String) : Except Fault (Inequality α) :=
  match b.find? label with
  | none => .error (.unknownLabel label)
  | some q => .ok q

def activeVertex (b : Board α) : Option (Vertex α) := b.selected.bind fun i => b.vertices[i]?

def setStatus (b : Board α) (index : Nat) (status : Status) : Board α :=
  { b with vertices := b.vertices.modify index fun v => { v with status } }

section Corners
variable [Scalar α] [Hypot α]

/-- The corner among the old ones that a point continues, with its index: the first one
near it. -/
def continued (old : List (Vertex α)) (p : Point α) : Option (Vertex α × Nat) :=
  old.zipIdx.find? fun (v, _) => v.point.near p

/-- A corner as it comes onto the board: with the status of the one it continues. -/
def vertexOf (old : List (Vertex α)) (c : Corner α) : Vertex α :=
  let status :=
    match continued old c.point with
    | none => .unsolved
    | some (v, _) => v.status
  ⟨c.point, c.point, status, c.lines⟩

/-- The index of the corner that continues the selected one, the last one if there are
several. -/
def selectionOf (old : List (Vertex α)) (selected : Option Nat) (corners : List (Corner α)) :
    Option Nat :=
  match selected with
  | none => none
  | some s =>
    let kept := corners.zipIdx.filter fun (c, _) => (continued old c.point).any fun v => v.2 == s
    kept.getLast?.map (·.2)

/-- The board with its corners worked out again. -/
def refreshed (b : Board α) : Except Fault (Board α) := do
  let corners ← Corner.ofInequalities b.inequalities
  return { b with
    vertices := corners.map (vertexOf b.vertices)
    selected := selectionOf b.vertices b.selected corners }

def refreshAndSay (b : Board α) (f : Feedback) : Outcome α Feedback :=
  match b.refreshed with
  | .error e => (.error e, b)
  | .ok b => b.say f

end Corners
end Board
end HalfPlane
