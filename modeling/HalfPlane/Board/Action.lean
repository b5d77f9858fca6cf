/-
Everything that can happen to a board, as data, and what each of it leads to.
-/
import HalfPlane.Board.Lifetime
import HalfPlane.Board.Pointing

namespace HalfPlane.Board
variable {α : Type}

/-- What can happen to a board. -/
inductive Action (α : Type) where
  | add (text : String)
  | remove (label : String)
  | clearChoice (label : String)
  | chooseRegion (label : String) (side : Option String)
  | select (index : Int)
  | submit (x y : String)
  | check (p : Point α)
  | click (s : Pixel α)
  | pointerDown (s : Pixel α)
  | pointerMove (s : Pixel α)
  | pointerUp (s : Pixel α)
  | wheel (delta : α) (s : Option (Pixel α))
  | touchStart (touches : List (Pixel α))
  | touchMove (touches : List (Pixel α))
  | touchEnd (touches : List (Pixel α))
  | pan (dx dy : α)
  | resize (width height : α)
  | resetView
  | reset
  | validateLater (text : String)
  | deliver (text : String) (generation : Int)
  | advance (time : Nat)
  | close

/-- What an action gives back. -/
inductive Answer (α : Type) where
  | nothing
  | feedback (f : Option Feedback)
  | hovered (label : Option String)
  | zoom (z : α)
  | checked (texts : List (Checked α))

def answered (o : Outcome α Feedback) : Outcome α (Answer α) :=
  (o.1.map fun f => .feedback (some f), o.2)

/-- An outcome with its feedback, if there is any, as the answer. -/
def maybeAnswered (o : Outcome α (Option Feedback)) : Outcome α (Answer α) :=
  (o.1.map .feedback, o.2)

def silent (o : Outcome α Unit) : Outcome α (Answer α) := (o.1.map fun _ => .nothing, o.2)

def perform [Coordinate α] (b : Board α) : Action α → Outcome α (Answer α)
  | .add text => answered (b.add text)
  | .remove label => answered (b.remove label)
  | .clearChoice label => answered (b.clearChoice label)
  | .chooseRegion label side => answered (b.chooseRegion label side)
  | .select index => answered (b.select index)
  | .submit x y => answered (b.submit x y)
  | .check p => answered (b.check p)
  | .click s => maybeAnswered (b.click s)
  | .pointerDown s => (.ok .nothing, b.pointerDown s)
  | .pointerMove s =>
    let (label, b) := b.pointerMove s
    (.ok (.hovered label), b)
  | .pointerUp s => maybeAnswered (b.pointerUp s)
  | .wheel delta s =>
    let b := b.wheel delta s
    (.ok (.zoom b.view.zoom), b)
  | .touchStart touches => (.ok .nothing, b.touchStart touches)
  | .touchMove touches => (.ok .nothing, b.touchMove touches)
  | .touchEnd touches => maybeAnswered (b.touchEnd touches)
  | .pan dx dy => (.ok .nothing, b.pan dx dy)
  | .resize width height => silent (b.resize width height)
  | .resetView => silent b.resetView
  | .reset => answered b.reset
  | .validateLater text => (.ok .nothing, b.validateLater text)
  | .deliver text generation => (.ok (.checked (b.delivered text generation).toList), b)
  | .advance time =>
    let (texts, b) := b.advance time
    (.ok (.checked texts), b)
  | .close => (.ok .nothing, b.close)

/-- The board after an action, whether or not it failed. -/
def after [Coordinate α] (b : Board α) (a : Action α) : Board α := (b.perform a).2

def afterAll [Coordinate α] (b : Board α) (actions : List (Action α)) : Board α :=
  actions.foldl after b

end HalfPlane.Board
