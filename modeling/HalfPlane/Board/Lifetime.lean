/-
The window of a board, starting over, and checking a text once typing pauses.

A text is checked away from the board's register, and handed over only if the board has
not been reset since it was typed.
-/
import HalfPlane.Board

namespace HalfPlane.Board
variable {α : Type} [Scalar α]

/-! ## The window -/

/-- A new window of another size, with the zoom kept. -/
def resize [Exact α] (b : Board α) (width height : α) : Outcome α Unit :=
  match View.centred width height b.view.zoom with
  | .error e => (.error e, b)
  | .ok view => (.ok (), { b with view })

/-- The window as it was at first. -/
def resetView [Exact α] (b : Board α) : Outcome α Unit :=
  match View.centred b.view.width b.view.height View.standardZoom with
  | .error e => (.error e, b)
  | .ok view => (.ok (), { b with view })

def pan (b : Board α) (dx dy : α) : Board α := { b with view := b.view.pan dx dy }

/-! ## Starting over -/

/-- The board with nothing on it, one generation on. A drag that is under way stays one,
and so does what the register has read. -/
def cleared (b : Board α) : Board α :=
  { b with
    generation := b.generation + 1
    validator := b.validator.cancel
    inequalities := [], vertices := [], checked := []
    selected := none, hovered := none
    pointer := { b.pointer with press := none, last := none, pinch := none }
    register := b.register.restart }

/-- Clear the board, and start labels, colours and the window over. -/
def reset [Exact α] (b : Board α) : Outcome α Feedback :=
  match b.cleared.resetView with
  | (.error e, b) => (.error e, b)
  | (.ok (), b) => b.say .reset

/-! ## Checking texts later -/

/-- A text that was checked, and the form it has, if any. -/
structure Checked (α : Type) where
  text : String
  form : Option (LinearForm α)

/-- Check a text once typing pauses. -/
def validateLater (b : Board α) (text : String) : Board α :=
  { b with validator := b.validator.call ⟨text, b.generation⟩ }

/-- What is handed over for a text that was typed on a generation of the board: nothing,
if that is over. -/
def delivered (b : Board α) (text : String) (generation : Int) : Option (Checked α) :=
  if generation = b.generation then some ⟨text, LinearForm.ofText? text⟩ else none

/-- Let time pass. The texts whose pause is over are handed over. -/
def advance (b : Board α) (time : Nat) : List (Checked α) × Board α :=
  let (due, validator) := b.validator.advance time
  (due.filterMap fun v => b.delivered v.text v.generation, { b with validator })

def close (b : Board α) : Board α := { b with validator := b.validator.cancel }

end HalfPlane.Board
