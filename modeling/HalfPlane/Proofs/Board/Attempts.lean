/-
Attempts at corners, one after another, each at any corner.

A corner is selected before its coordinates are named, unless it is selected already. Only the
selected corner is ever active, so a corner that is not selected is not active either, and
selecting it never lets go of it instead (`Orderly.select_eq`). So an attempt is always graded by
its own corner, and it solves that corner or none (`Orderly.attempt`).
-/
import HalfPlane.Proofs.Board.Statuses

namespace HalfPlane
open Scalar

namespace Board
variable {α : Type} {b b' : Board α}

/-- The corner with this index is solved. -/
def SolvedAt (b : Board α) (i : Nat) : Prop := ∃ v, b.vertices[i]? = some v ∧ v.status = .solved

theorem solvedAt_iff {i : Nat} {v : Vertex α} (hv : b.vertices[i]? = some v) :
    b.SolvedAt i ↔ v.status = .solved := by
  unfold SolvedAt
  rw [hv]
  simp

theorem solvedAt_marked {i : Nat} {status : Status} (there : ∃ v, b.vertices[i]? = some v)
    (marks : b'.vertices = marked b.vertices i status) (j : Nat) :
    b'.SolvedAt j ↔ if j = i then status = .solved else b.SolvedAt j := by
  obtain ⟨v, hv⟩ := there
  unfold SolvedAt
  rw [marks, getElem?_marked]
  by_cases same : j = i
  · rw [if_pos same, if_pos same.symm, same, hv]
    simp
  · rw [if_neg same, if_neg (Ne.symm same)]

/-- Selecting and letting go solve no corner, and leave none unsolved that was solved. -/
theorem Turned.solvedAt_iff (h : Turned b.vertices b'.vertices) (i : Nat) :
    b'.SolvedAt i ↔ b.SolvedAt i := by
  constructor
  · rintro ⟨w, hw, solved⟩
    obtain ⟨v, hv, -⟩ := h.former hw
    refine ⟨v, hv, ?_⟩
    rcases h.status hv hw with kept | ⟨-, shown⟩
    · rw [← kept, solved]
    · rw [solved] at shown
      rcases shown with shown | shown <;> cases shown
  · rintro ⟨v, hv, solved⟩
    obtain ⟨w, hw, -⟩ := exists_of_map_bare h.bare.symm hv
    refine ⟨w, hw, ?_⟩
    rcases h.status hv hw with kept | ⟨moved, -⟩
    · rw [kept, solved]
    · rw [solved] at moved
      cases moved

/-! ## Between attempts -/

/-- What holds of the corners of a board between attempts: each is its own target, the selected
one has been marked, and no other is active. -/
structure Orderly (b : Board α) : Prop where
  targets : ∀ v ∈ b.vertices, v.target = v.point
  valid : ValidSelection b.vertices b.selected
  active : ActiveSelected b.vertices b.selected

namespace Orderly
variable {i : Nat} {v : Vertex α}

theorem of_same (h : b.Orderly) (vertices : b'.vertices = b.vertices)
    (selected : b'.selected = b.selected) : b'.Orderly := by
  refine ⟨?_, ?_, ?_⟩ <;> rw [vertices]
  · exact h.targets
  · rw [selected]
    exact h.valid
  · rw [selected]
    exact h.active

theorem mark (h : b.Orderly) (marking : Marking b.vertices b.selected b'.vertices b'.selected) :
    b'.Orderly :=
  ⟨fun _ hv => marking.targets h.targets hv, marking.validSelection h.valid,
    marking.activeSelected h.active⟩

/-- The selected corner wants coordinates unless it is solved. -/
theorem asks (h : b.Orderly) (selected : b.selected = some i) (hv : b.vertices[i]? = some v) :
    v.status.asks = !decide (v.status = .solved) := by
  obtain ⟨w, hw, said⟩ := h.valid i selected
  rw [hv, Option.some.injEq] at hw
  subst hw
  cases status : v.status with
  | unsolved => exact absurd status said
  | active | partly | solved => rfl

/-- A corner that is not selected yet is selected, and not let go. -/
theorem select_eq (h : b.Orderly) (hv : b.vertices[i]? = some v) (other : b.selected ≠ some i) :
    b.select i =
      if v.status = .solved then
        { b with vertices := calmed b.vertices, selected := some i }.say .alreadySolved
      else
        { b with vertices := marked (calmed b.vertices) i .active, selected := some i }.say
          .enterCoordinates := by
  have idle : v.status ≠ .active := fun active => other (h.active i v hv active)
  simp only [select, Int.natCast_nonneg, if_true, Int.toNat_natCast, hv, other, idle, or_self,
    if_false]
  rfl

end Orderly

/-- The board with a corner selected: as it is, if that corner is selected already. -/
def selecting (b : Board α) (i : Nat) : Board α :=
  if b.selected = some i then b else (b.select i).2

/-- A board on which a corner has been selected. -/
structure Selects (b : Board α) (i : Nat) (b' : Board α) : Prop where
  turned : Turned b.vertices b'.vertices
  selected : b'.selected = some i
  orderly : b'.Orderly

theorem Orderly.selecting (h : b.Orderly) {i : Nat} {v : Vertex α}
    (hv : b.vertices[i]? = some v) : Selects b i (b.selecting i) := by
  unfold Board.selecting
  split
  · next selected => exact ⟨.refl _, selected, h⟩
  · next other =>
    have turned := turned_select b i
    rw [h.select_eq hv other] at turned ⊢
    split
    · next solved =>
      rw [if_pos solved] at turned
      exact ⟨turned, rfl, h.mark (.present hv solved)⟩
    · next unsolved =>
      rw [if_neg unsolved] at turned
      exact ⟨turned, rfl, h.mark (.activate hv)⟩

/-! ## One attempt -/

section Attempt
variable [Scalar α] [Readable α] [Exact α] {i : Nat} {v : Vertex α}

/-- What an attempt at a corner leads to. -/
structure Attempted (b : Board α) (i : Nat) (v : Vertex α) (xText yText : String)
    (outcome : Outcome α Feedback) : Prop where
  /-- It is graded by its own corner, unless that is solved already. -/
  said : outcome.1 = .ok (if v.status = .solved then .noActive else grading v.point xText yText)
  orderly : outcome.2.Orderly
  bare : outcome.2.vertices.map Vertex.bare = b.vertices.map Vertex.bare
  /-- It solves its own corner if both coordinates are right, and otherwise none. -/
  solved : ∀ j, outcome.2.SolvedAt j ↔
    b.SolvedAt j ∨ j = i ∧ rating v.point xText yText = some (true, true)

/-- The selected corner is rated. -/
theorem Orderly.submit (h : b.Orderly) (selected : b.selected = some i)
    (hv : b.vertices[i]? = some v) (xText yText : String) :
    Attempted b i v xText yText (b.submit xText yText) := by
  have target := h.targets v (List.mem_of_getElem? hv)
  by_cases solved : v.status = .solved
  · have asks : v.status.asks = false := by rw [h.asks selected hv, solved]; rfl
    rw [submit_unasked selected hv asks]
    refine ⟨by rw [if_pos solved]; rfl, h.of_same rfl rfl, rfl, fun j => ?_⟩
    refine ⟨.inl, ?_⟩
    rintro (before | ⟨rfl, -⟩)
    · exact before
    · exact (solvedAt_iff hv).2 solved
  · have asks : v.status.asks = true := by rw [h.asks selected hv, decide_eq_false solved]; rfl
    rw [submit_eq selected hv asks, target]
    have rated := Status.rated_eq_solved_iff (r := rating v.point xText yText) solved
    generalize hr : rating v.point xText yText = r at rated ⊢
    refine ⟨by rw [if_neg solved]; rfl, ?_, map_bare_marked _ _ _, fun j => ?_⟩
    · by_cases right : r = some (true, true)
      · rw [if_pos right, rated.2 right]
        exact h.mark (.solve selected)
      · rw [if_neg right]
        rcases Status.rated_of_not_right right with kept | half
        · rw [kept, marked_status hv]
          exact h.of_same rfl selected.symm
        · rw [half, ← selected]
          exact h.mark (.grade selected)
    · rw [hr, solvedAt_marked ⟨v, hv⟩ rfl]
      split
      · next same => simp [same, solvedAt_iff hv, rated, solved]
      · next other => simp [other]

/-- An attempt at a corner is graded by that corner alone, and solves that corner or none. -/
theorem Orderly.attempt (h : b.Orderly) (hv : b.vertices[i]? = some v) (xText yText : String) :
    Attempted b i v xText yText ((b.selecting i).submit xText yText) := by
  have selects := h.selecting hv
  obtain ⟨w, hw, same⟩ := exists_of_map_bare selects.turned.bare.symm hv
  have point := Vertex.point_of_bare same
  have status : w.status = .solved ↔ v.status = .solved := by
    rw [← solvedAt_iff hw, ← solvedAt_iff hv, selects.turned.solvedAt_iff]
  have rated := selects.orderly.submit selects.selected hw xText yText
  refine ⟨?_, rated.orderly, rated.bare.trans selects.turned.bare, fun j => ?_⟩
  · rw [rated.said, point]
    simp only [status]
  · rw [rated.solved, point, selects.turned.solvedAt_iff]

end Attempt

/-! ## Before the first attempt -/

/-- A board on which nothing has been said of any corner. -/
structure Fresh (b : Board α) : Prop where
  selected : b.selected = none
  targets : ∀ v ∈ b.vertices, v.target = v.point
  unsolved : ∀ v ∈ b.vertices, v.status = .unsolved

namespace Fresh

theorem orderly (h : b.Fresh) : b.Orderly where
  targets := h.targets
  valid i hi := by
    rw [h.selected] at hi
    cases hi
  active i v hv active := by
    rw [h.unsolved v (List.mem_of_getElem? hv)] at active
    cases active

theorem not_solvedAt (h : b.Fresh) (i : Nat) : ¬ b.SolvedAt i := by
  rintro ⟨v, hv, solved⟩
  rw [h.unsolved v (List.mem_of_getElem? hv)] at solved
  cases solved

theorem of_same (h : b.Fresh) (vertices : b'.vertices = b.vertices)
    (selected : b'.selected = b.selected) : b'.Fresh := by
  refine ⟨selected.trans h.selected, ?_, ?_⟩ <;> rw [vertices]
  · exact h.targets
  · exact h.unsolved

theorem of_make [Scalar α] [Exact α] {width height zoom : α} {palette : List String} {delay : Int}
    (made : Board.make width height zoom palette delay = .ok b) : b.Fresh := by
  obtain ⟨_, -, made⟩ := bind_ok_iff.1 made
  obtain ⟨_, -, made⟩ := bind_ok_iff.1 made
  obtain ⟨_, -, made⟩ := bind_ok_iff.1 made
  cases made
  exact ⟨rfl, fun _ hv => absurd hv (by simp), fun _ hv => absurd hv (by simp)⟩

/-- Corners that are worked out again take over statuses, and there is none to take over. -/
theorem refreshed [Scalar α] [Hypot α] (h : b.Fresh) (refreshed : Refreshed b b') : b'.Fresh := by
  cases refreshed with
  | same vertices selected => exact h.of_same vertices selected
  | again found vertices selected =>
    rw [h.selected] at selected
    refine ⟨selected, ?_, ?_⟩ <;> rw [vertices] <;> intro v hv <;>
      obtain ⟨c, -, rfl⟩ := List.mem_map.1 hv
    · rfl
    · by_contra said
      obtain ⟨w, s, old, status⟩ := continued_of_status said
      rw [h.unsolved w (List.mem_of_getElem? (continued_some old).1)] at status
      exact said status.symm

end Fresh

/-- Checking a point leaves the corners alone. -/
theorem check_marks [Scalar α] [Exact α] (b : Board α) (p : Point α) :
    (b.check p).2.vertices = b.vertices ∧ (b.check p).2.selected = b.selected := by
  unfold check
  dsimp only
  split <;> exact ⟨rfl, rfl⟩

end Board
end HalfPlane
