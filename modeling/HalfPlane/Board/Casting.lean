/-
Casting inequalities onto a board, taking them off, and claiming their solutions.
-/
import HalfPlane.Board

namespace HalfPlane.Board
variable {α : Type} [Scalar α] [Hypot α]

/-- Whether a form has the solutions of an inequality of a list. -/
def isAmong (form : LinearForm α) : List (Inequality α) → Except Fault Bool
  | [] => .ok false
  | q :: rest => do
    if ← form.sameAs q.form then return true else isAmong form rest

/-- Cast the inequality that a text spells out, unless its solutions are on the board
already. -/
def add [Exact α] (b : Board α) (text : String) : Outcome α Feedback :=
  if Text.allBlank text then b.say .blankText
  else
    let (form, register) := b.register.read text
    let b := { b with register }
    match form with
    | none => b.say .unreadable
    | some form =>
      match isAmong form b.inequalities with
      | .error e => (.error e, b)
      | .ok true => b.say .duplicate
      | .ok false =>
        let (entry, register) := b.register.enter form
        let b := { b with register }
        match entry with
        | .error e => (.error e, b)
        | .ok q => { b with inequalities := b.inequalities ++ [q] }.refreshAndSay .added

def remove (b : Board α) (label : String) : Outcome α Feedback :=
  match b.get label with
  | .error e => (.error e, b)
  | .ok _ =>
    { b with
      inequalities := b.inequalities.eraseP fun q => q.label == label
      hovered := if b.hovered = some label then none else b.hovered }.refreshAndSay
        (.removed label)

/-- The inequalities with a new claim for one label, the first that has it. -/
def claimed (label : String) (solution : Solution) : List (Inequality α) → List (Inequality α)
  | [] => []
  | q :: rest =>
    if q.label = label then { q with solution } :: rest else q :: claimed label solution rest

/-- Withdraw the claim on an inequality. The claim on an equation stands. -/
def clearChoice (b : Board α) (label : String) : Outcome α Feedback :=
  match b.get label with
  | .error e => (.error e, b)
  | .ok q =>
    if q.form.operator = .eq then b.say (.chooseRegion label)
    else
      { b with inequalities := claimed label .unsolved b.inequalities }.refreshAndSay
        (.chooseRegion label)

/-- Claim a side of an inequality, given by its name. The claim stands even when it is
wrong. -/
def chooseRegion (b : Board α) (label : String) (side : Option String) : Outcome α Feedback :=
  match b.get label with
  | .error e => (.error e, b)
  | .ok q =>
    if q.form.operator = .eq then (.error (.noRegion label), b)
    else
      match Side.ofName side with
      | .error e => (.error e, b)
      | .ok side =>
        let b := { b with inequalities := claimed label (.solved (some side)) b.inequalities }
        match q.form.sideSatisfies side with
        | .error e => (.error e, b)
        | .ok right => b.refreshAndSay (if right then .correct else .incorrect)

end HalfPlane.Board
