/-
All the calls that make a picture of a frame, and those that are made when one of them
fails.

The figure is opened first and closed last, whatever happens in between. A call that
fails is not made, and nothing after it is, except closing the figure.
-/
import HalfPlane.Drawing.Call
import HalfPlane.Drawing.Path

namespace HalfPlane.Drawing
variable {α : Type} [Scalar α]

def openFigure (width height : α) : Call α :=
  ⟨"figure", [], [("figsize", pair (width / dpi) (height / dpi)), ("dpi", .number dpi)]⟩

def closeFigure : Call α := ⟨"close", [], []⟩

/-- Axes over the whole figure, in pixels, the vertical one downwards. -/
def setUp (width height : α) : List (Call α) :=
  [⟨"add_axes", [.list [.number 0.0, .number 0.0, .number 1.0, .number 1.0]], []⟩,
    ⟨"set_xlim", [.number 0.0, .number width], []⟩,
    ⟨"set_ylim", [.number height, .number 0.0], []⟩,
    ⟨"set_aspect", [.text "equal"], [("adjustable", .text "box")]⟩,
    ⟨"axis", [.text "off"], []⟩]

def save (path : String) : Call α :=
  ⟨"savefig", [.text path], [("format", .text "png"), ("dpi", .number dpi)]⟩

/-- The calls between opening and closing the figure. Without a path nothing is saved. -/
def body (marks : List (Mark α)) (width height : α) (path : Option String) : List (Call α) :=
  setUp width height ++ marks.flatMap ofMark ++ path.toList.map save

/-- Whether a call goes to the axes and not to the figure. -/
def Call.onAxes (c : Call α) : Bool :=
  c.name ∈ ["set_xlim", "set_ylim", "set_aspect", "axis", "add_patch", "plot", "text", "imshow"]

/-- Calls that were made, and what the next one raised, if one did. -/
structure Attempt (ε α : Type) where
  calls : List (Call α)
  raised : Option ε

/-- Make calls one after another, up to the first one that raises something. What a call raises is
told by its number, the first of these having the number `i`, and by what it is. -/
def attempt {ε : Type} (raises : Nat → Call α → Option ε) (i : Nat) :
    List (Call α) → Attempt ε α
  | [] => ⟨[], none⟩
  | c :: rest =>
    match raises i c with
    | some e => ⟨[], some e⟩
    | none =>
      let later := attempt raises (i + 1) rest
      ⟨c :: later.calls, later.raised⟩

/-- The calls made for a picture of positive size; any other is refused before the figure is
opened. What a call raises is raised once the figure is closed. -/
def paint [Exact α] {ε : Type} (raises : Nat → Call α → Option ε) (marks : List (Mark α))
    (width height : α) (path : Option String) : Except Fault (Attempt ε α) :=
  if width ≤ 0.0 ∨ height ≤ 0.0 then
    .error (.emptyViewport (shortestText width) (shortestText height))
  else
    let made := attempt raises 0 (body marks width height path)
    .ok ⟨openFigure width height :: made.calls ++ [closeFigure], made.raised⟩

/-- Calls that were made, and whether every one that was wanted is among them. -/
structure Outcome (α : Type) where
  calls : List (Call α)
  completed : Bool

def Attempt.outcome {ε : Type} (a : Attempt ε α) : Outcome α := ⟨a.calls, a.raised.isNone⟩

/-- What is raised when the calls that `fails` picks fail, all in the same way. -/
def failing (fails : Nat → Call α → Bool) (i : Nat) (c : Call α) : Option Unit :=
  if fails i c then some () else none

/-- The calls made for a picture of positive size when the calls that `fails` picks fail. -/
def picture [Exact α] (fails : Nat → Call α → Bool) (marks : List (Mark α)) (width height : α)
    (path : Option String) : Except Fault (Outcome α) :=
  (paint (failing fails) marks width height path).map Attempt.outcome

end HalfPlane.Drawing
