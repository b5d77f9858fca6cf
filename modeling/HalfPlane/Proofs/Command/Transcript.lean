/-
What the steps of a run do to its transcript.

Whatever each step keeps, a run of them keeps (`Step.next_keeps`, `Transcript.each_keeps`).
Casting and claiming mark no corner, checking points leaves the corners alone, and showing the
board leaves the board alone and only ever prints more.
-/
import HalfPlane.Command.Run
import HalfPlane.Proofs.Board.Attempts

namespace HalfPlane.Command
variable {α : Type}

/-! ## One step after another -/

@[simp] theorem Step.next_none (t : Transcript α) (f : Transcript α → Step α) :
    Step.next (none, t) f = f t := rfl

theorem Step.next_keeps {P : Transcript α → Prop} {s : Step α} {f : Transcript α → Step α}
    (first : P s.2) (second : ∀ t, P t → P (f t).2) : P (s.next f).2 := by
  obtain ⟨ending, t⟩ := s
  cases ending with
  | none => exact second t first
  | some e => exact first

namespace Transcript

theorem each_keeps {β : Type} {P : Transcript α → Prop} {f : Transcript α → β → Step α}
    (step : ∀ t x, P t → P (f t x).2) : ∀ (xs : List β) {t : Transcript α}, P t → P (t.each f xs).2
  | [], _, h => h
  | x :: xs, t, h => Step.next_keeps (step t x h) fun _ h => each_keeps step xs h

/-! ## Casting, claiming and checking -/

section Board
variable [Coordinate α]

theorem fresh_cast (t : Transcript α) (text : String) (h : t.board.Fresh) :
    (t.cast text).2.board.Fresh := by
  have fresh := h.refreshed (Board.refreshed_add t.board text)
  unfold cast
  split <;> next cast => rw [cast] at fresh; exact fresh

theorem fresh_claim (t : Transcript α) (q : Inequality α) (h : t.board.Fresh) :
    (t.claim q).2.board.Fresh := by
  unfold claim
  split
  · exact h
  · exact h
  · next side _ =>
    split
    · exact h
    · have fresh := h.refreshed (Board.refreshed_chooseRegion t.board q.label (some side.name))
      split <;> next claimed => rw [claimed] at fresh; exact fresh

/-- The corners are as they were, and so is the selection. -/
def SameCorners (t t' : Transcript α) : Prop :=
  t'.board.vertices = t.board.vertices ∧ t'.board.selected = t.board.selected

theorem sameCorners_point (t : Transcript α) (point : Option String) :
    SameCorners t (t.point point).2 := by
  cases point with
  | none => exact ⟨rfl, rfl⟩
  | some text =>
    show SameCorners t (t.pointText text).2
    unfold pointText
    split
    · split
      · next x y _ _ =>
        have same := Board.check_marks t.board ⟨x, y⟩
        split <;> next checked => rw [checked] at same; exact same
      · exact ⟨rfl, rfl⟩
    · exact ⟨rfl, rfl⟩

end Board

/-! ## Showing the board -/

/-- The board is as it was, and nothing that was printed is gone. -/
structure Extends (t t' : Transcript α) : Prop where
  board : t'.board = t.board
  printed : t.printed <+: t'.printed

namespace Extends
variable {t t' t'' : Transcript α}

theorem refl (t : Transcript α) : Extends t t := ⟨rfl, List.prefix_refl _⟩

theorem trans (h : Extends t t') (h' : Extends t' t'') : Extends t t'' :=
  ⟨h'.board.trans h.board, h.printed.trans h'.printed⟩

theorem print (h : Extends t t') (line : String) : Extends t (t'.print line) :=
  h.trans ⟨rfl, List.prefix_append _ _⟩

theorem preview (s : Surroundings α) (path : String) (h : Extends t t') :
    Extends t (t'.preview s path) := by
  unfold Transcript.preview
  split
  · exact ⟨h.board, h.printed⟩
  · exact ⟨h.board, h.printed⟩
  · dsimp only
    split <;> exact ⟨h.board, h.printed⟩

theorem exhibitFile (s : Surroundings α) (settings : Settings α) (path : String)
    (h : Extends t t') : Extends t (t'.exhibitFile s settings path) := by
  unfold Transcript.exhibitFile
  have named : Extends t
      (if namesFile settings then t'.print ("✔ Plane written to " ++ path) else t') := by
    split
    · exact h.print _
    · exact h
  dsimp only
  split
  · exact named.preview s path
  · exact named

variable [Coordinate α]

theorem picture (s : Surroundings α) (path : Option String) (t : Transcript α) :
    Extends t (t.picture s path).2 := by
  unfold Transcript.picture
  split
  · exact .refl t
  · split
    · exact .refl t
    · dsimp only
      split
      · split <;> exact ⟨rfl, List.prefix_refl _⟩
      · exact ⟨rfl, List.prefix_refl _⟩

theorem exhibit (s : Surroundings α) (settings : Settings α) (t : Transcript α) :
    Extends t (t.exhibit s settings).2 := by
  unfold Transcript.exhibit
  split
  · refine Step.next_keeps (picture s _ t) fun t' h => ?_
    cases picturePath s settings with
    | none => exact h
    | some path => exact h.exhibitFile s settings path
  · exact .refl t

theorem printSnapshot (settings : Settings α) (h : Extends t t') :
    Extends t (printSnapshot settings t').2 := by
  unfold Command.printSnapshot
  split
  · exact h.print _
  · exact h

end Extends
end Transcript
end HalfPlane.Command
