/-
What most operations of a board neither look at nor change.

The register, the generation, the pointer and the texts that wait are behind the scenes, and
what was said last is only ever replaced. An operation is `Onstage` if it comes to the same
before any other backstage, and then it leaves the backstage as it was (`Onstage.keeps`).
-/
import HalfPlane.Board.Action
import HalfPlane.Board.Picture

namespace HalfPlane
variable {α β γ : Type}

/-- What is behind the scenes of a board, and what is said as long as the board itself has
said nothing. -/
structure Backstage (α : Type) where
  register : Register α
  generation : Nat
  pointer : Pointer α
  validator : Debouncer Validation
  said : Option Feedback

namespace Board

def backstage (b : Board α) : Backstage α :=
  ⟨b.register, b.generation, b.pointer, b.validator, b.said⟩

/-- The board before another backstage. -/
def backedBy (b : Board α) (s : Backstage α) : Board α :=
  { b with
    register := s.register
    generation := s.generation
    pointer := s.pointer
    validator := s.validator
    said := b.said.or s.said }

/-- The board as it was when nothing had been said. -/
def silenced (b : Board α) : Board α := { b with said := none }

theorem silenced_backedBy (b : Board α) : b.silenced.backedBy b.backstage = b := rfl

end Board

def Outcome.backedBy (o : Outcome α β) (s : Backstage α) : Outcome α β := (o.1, o.2.backedBy s)

namespace Board

/-- An operation that comes to the same before any other backstage. -/
def Onstage (operation : Board α → Outcome α β) : Prop :=
  ∀ b s, operation (b.backedBy s) = (operation b).backedBy s

namespace Onstage
variable {operation : Board α → Outcome α β}

/-- The backstage stays as it was. -/
theorem keeps (h : Onstage operation) (b : Board α) :
    ∃ c : Board α, (operation b).2 = c.backedBy b.backstage := by
  have split := h b.silenced b.backstage
  rw [silenced_backedBy] at split
  exact ⟨_, congrArg Prod.snd split⟩

theorem map (h : Onstage operation) (f : β → γ) :
    Onstage fun b => ((operation b).1.map f, (operation b).2) := by
  intro b s
  simp only [h b s]
  rfl

end Onstage

theorem onstage_say (f : Feedback) : Onstage fun b : Board α => b.say f := fun _ _ => rfl

/-! ## Casting and claiming -/

section Casting
variable [Scalar α] [Hypot α]

theorem refreshed_backedBy (b : Board α) (s : Backstage α) :
    (b.backedBy s).refreshed = b.refreshed.map (·.backedBy s) := by
  have same : (b.backedBy s).inequalities = b.inequalities := rfl
  unfold refreshed
  rw [same]
  cases Corner.ofInequalities b.inequalities <;> rfl

theorem onstage_refreshAndSay (f : Feedback) : Onstage fun b : Board α => b.refreshAndSay f := by
  intro b s
  simp only [refreshAndSay, refreshed_backedBy]
  cases b.refreshed <;> rfl

theorem onstage_remove (label : String) : Onstage fun b : Board α => b.remove label := by
  intro b s
  have same : (b.backedBy s).get label = b.get label := rfl
  simp only [remove, same]
  cases b.get label with
  | error e => rfl
  | ok q =>
    exact onstage_refreshAndSay _
      { b with
        inequalities := b.inequalities.eraseP fun q => q.label == label
        hovered := if b.hovered = some label then none else b.hovered } s

theorem onstage_clearChoice (label : String) : Onstage fun b : Board α => b.clearChoice label := by
  intro b s
  have same : (b.backedBy s).get label = b.get label := rfl
  simp only [clearChoice, same]
  cases b.get label with
  | error e => rfl
  | ok q =>
    dsimp only
    split
    · rfl
    · exact onstage_refreshAndSay _
        { b with inequalities := claimed label .unsolved b.inequalities } s

theorem onstage_chooseRegion (label : String) (side : Option String) :
    Onstage fun b : Board α => b.chooseRegion label side := by
  intro b s
  have same : (b.backedBy s).get label = b.get label := rfl
  simp only [chooseRegion, same]
  cases b.get label with
  | error e => rfl
  | ok q =>
    dsimp only
    split
    · rfl
    · cases Side.ofName side with
      | error e => rfl
      | ok side =>
        dsimp only
        cases q.form.sideSatisfies side with
        | error e => rfl
        | ok right =>
          exact onstage_refreshAndSay _
            { b with inequalities := claimed label (.solved (some side)) b.inequalities } s

end Casting

/-! ## Selecting, naming and checking -/

section Naming

theorem onstage_deselectAndSay (i : Nat) (v : Vertex α) (f : Feedback) :
    Onstage fun b : Board α => (b.deselect i v).say f := by
  intro b s
  simp only [deselect]
  split <;> rfl

theorem onstage_select (index : Int) : Onstage fun b : Board α => b.select index := by
  intro b s
  have vertices : (b.backedBy s).vertices = b.vertices := rfl
  have selected : (b.backedBy s).selected = b.selected := rfl
  simp only [select, vertices, selected]
  cases if 0 ≤ index then b.vertices[index.toNat]? else none with
  | none => rfl
  | some v =>
    dsimp only
    split
    · exact onstage_deselectAndSay _ v _ b s
    · split <;> rfl

variable [Scalar α]

theorem onstage_submit [Readable α] [Exact α] (x y : String) :
    Onstage fun b : Board α => b.submit x y := by
  intro b s
  have selected : (b.backedBy s).selected = b.selected := rfl
  have active : (b.backedBy s).activeVertex = b.activeVertex := rfl
  simp only [submit, selected, active]
  repeat' split
  all_goals rfl

theorem onstage_check [Exact α] (p : Point α) : Onstage fun b : Board α => b.check p := by
  intro b s
  have same : (b.backedBy s).inequalities = b.inequalities := rfl
  simp only [check, same]
  split <;> rfl

end Naming

/-! ## Clicks and hovering -/

section Pointing

theorem missed_backedBy (b : Board α) (s : Backstage α) :
    (b.backedBy s).missed = b.missed.backedBy s := by
  have selected : (b.backedBy s).selected = b.selected := rfl
  have active : (b.backedBy s).activeVertex = b.activeVertex := rfl
  simp only [missed, selected, active, deselect]
  repeat' split
  all_goals rfl

variable [Scalar α] [Hypot α]

theorem onstage_click (p : Pixel α) : Onstage fun b : Board α => b.click p := by
  intro b s
  have vertices : (b.backedBy s).vertices = b.vertices := rfl
  have view : (b.backedBy s).view = b.view := rfl
  have inequalities : (b.backedBy s).inequalities = b.inequalities := rfl
  simp only [click, vertices, view, inequalities]
  split
  · exact (onstage_select _).map some b s
  · split
    · rfl
    · split
      · exact congrArg (Prod.mk _) (missed_backedBy b s)
      · exact (onstage_chooseRegion _ _).map some b s

theorem onstage_hover (p : Pixel α) :
    Onstage fun b : Board α => (.ok (b.hover p).1, (b.hover p).2) := fun _ _ => rfl

end Pointing

/-! ## The window -/

section Window
variable [Scalar α]

theorem onstage_pinchTo [Hypot α] (pinch : Pinch α) (p q : Pixel α) :
    Onstage fun b : Board α => (.ok (), b.pinchTo pinch p q) := by
  intro b s
  simp only [pinchTo]
  split <;> rfl

theorem wheel_backedBy (b : Board α) (s : Backstage α) (delta : α) (p : Option (Pixel α)) :
    (b.backedBy s).wheel delta p = (b.wheel delta p).backedBy s := by
  unfold wheel
  split <;> rfl

theorem onstage_resize [Exact α] (width height : α) :
    Onstage fun b : Board α => b.resize width height := by
  intro b s
  have view : (b.backedBy s).view = b.view := rfl
  simp only [resize, view]
  cases View.centred width height b.view.zoom <;> rfl

theorem onstage_resetView [Exact α] : Onstage fun b : Board α => b.resetView := by
  intro b s
  have view : (b.backedBy s).view = b.view := rfl
  simp only [resetView, view]
  cases View.centred b.view.width b.view.height View.standardZoom <;> rfl

end Window

/-! ## Actions -/

/-- The actions that do not involve the backstage. -/
def Action.onstage : Action α → Bool
  | .remove _ | .clearChoice _ | .chooseRegion _ _ | .select _ | .submit _ _ | .check _
  | .click _ | .wheel _ _ | .pan _ _ | .resize _ _ | .resetView => true
  | _ => false

theorem onstage_perform [Coordinate α] {a : Action α} (h : a.onstage = true) :
    Onstage fun b : Board α => b.perform a := by
  cases a with
  | remove label => exact (onstage_remove label).map _
  | clearChoice label => exact (onstage_clearChoice label).map _
  | chooseRegion label side => exact (onstage_chooseRegion label side).map _
  | select index => exact (onstage_select index).map _
  | submit x y => exact (onstage_submit x y).map _
  | check p => exact (onstage_check p).map _
  | click p => exact (onstage_click p).map _
  | wheel delta p =>
    intro b s
    simp only [perform, wheel_backedBy]
    rfl
  | pan dx dy => intro b s; rfl
  | resize width height => exact (onstage_resize width height).map _
  | resetView => exact onstage_resetView.map _
  | add | pointerDown | pointerMove | pointerUp | touchStart | touchMove | touchEnd | reset
  | validateLater | deliver | advance | close => cases h

end Board
end HalfPlane
