/-
How a board grades the side that is claimed of an inequality.

A claim is graded by the mark of its side. In exact arithmetic exactly one of the two sides is
graded as correct, and it is the one that is shaded before a claim and that the solutions are
on (`one_side_correct`).
-/
import Mathlib.Algebra.Order.Field.Basic
import Mathlib.Analysis.Real.Sqrt
import HalfPlane.Proofs.Geometry.Sides
import HalfPlane.Proofs.Board.Pointing

namespace HalfPlane
open Scalar

/-- Where every inequality has a line, a claim is graded by the mark of its side. -/
theorem Board.chooseRegion_result {α : Type} [Scalar α] [Hypot α] {b : Board α} {label : String}
    {q : Inequality α} (lines : AllHaveLines b.inequalities) (found : b.find? label = some q)
    (region : q.form.operator ≠ .eq) {side : Side} {right : Bool}
    (graded : q.form.sideSatisfies side = .ok right) :
    (b.chooseRegion label (some side.name)).1 = .ok (if right then .correct else .incorrect) := by
  obtain ⟨corners, -, said⟩ := refreshAndSay_eq
    (b := { b with inequalities := claimed label (.solved (some side)) b.inequalities })
    (lines.claimed label _) (if right then .correct else .incorrect)
  simp only [chooseRegion, get_found found, if_neg region, Side.ofName_name, graded, said]

namespace LinearForm
variable {K : Type} [Field K] [LinearOrder K] [IsStrictOrderedRing K] [Hypot K] [EuclideanLength K]

/-- Of a form that was read, unless it is an equation, exactly one side is right: its mark solves
the form, it is the side that is found and the one that is shaded before a claim, in the
direction of a unit normal. What is claimed of it are the solutions, and what is claimed of the
other side are those of the form with the operator turned round. So a board on which all forms
were read grades a claim of this side as correct and a claim of the other side as incorrect. -/
theorem one_side_correct {shape : Shape K} {f : LinearForm K} (read : ofShape? shape = some f)
    (region : f.operator ≠ .eq) :
    ∃ right : Side,
      (∀ side, f.sideSatisfies side = .ok (decide (side = right))) ∧
      f.correctSide = .ok (some right) ∧
      (∃ (mid : Point K) (d : Direction K), f.midpoint = .ok mid ∧
        f.fillDirection none = .ok (some d) ∧ d.dx * d.dx + d.dy * d.dy = 1 ∧
        f.a * d.dy = f.b * d.dx ∧ ∀ offset,
          f.anchor right offset = .ok (some ⟨mid.x + d.dx * offset, mid.y + d.dy * offset⟩)) ∧
      (∀ (side : Side) (p : Point K), f.accepts (.solved (some side)) p = .ok
        (if side = right then f.satisfies p
          else ({ f with operator := f.operator.reversed } : LinearForm K).satisfies p)) ∧
      ∀ (b : Board K) (label : String) (q : Inequality K),
        (∀ r ∈ b.inequalities, ∃ shape, ofShape? shape = some r.form) →
        b.find? label = some q → q.form = f → ∀ side : Side,
          (b.chooseRegion label (some side.name)).1 =
            .ok (if side = right then .correct else .incorrect) := by
  obtain ⟨mid, n, h⟩ := (Proper.of_ofShape? read).exists_poised
  obtain ⟨d, shade⟩ := h.exists_shade region
  refine ⟨f.rightSide n, h.sideSatisfies_eq region, h.correctSide_eq region,
    ⟨mid, d, h.midpoint, shade⟩, h.accepts_eq region, fun b label q all found same side => ?_⟩
  subst same
  have lines : AllHaveLines b.inequalities := fun r hr => by
    obtain ⟨shape, read⟩ := all r hr
    exact (Proper.of_ofShape? read).hasLine
  rw [Board.chooseRegion_result lines found region (h.sideSatisfies_eq region side)]
  simp only [decide_eq_true_eq]

/-- A board with one inequality. -/
noncomputable def boardOf (f : LinearForm ℝ) : Board ℝ where
  register := ⟨"d", 1, ⟨"#4e31aa", [], ["#4e31aa"]⟩, .empty 1⟩
  view := ⟨600, 600, 40, ⟨300, 300⟩, 20, 100⟩
  inequalities := [⟨f, "d1", "#4e31aa", "", "", .unsolved⟩]
  vertices := []
  checked := []
  said := none
  selected := none
  hovered := none
  generation := 0
  pointer := ⟨none, none, false, none⟩
  validator := ⟨300, 0, 0, none, none, []⟩

theorem one_side_correct_of_faint : ∃ right : Side, faint.correctSide = .ok (some right) ∧
    ∀ side : Side, ((boardOf faint).chooseRegion "d1" (some side.name)).1 =
      .ok (if side = right then .correct else .incorrect) := by
  obtain ⟨right, -, found, -, -, graded⟩ := one_side_correct ofShape?_faint (by simp [faint])
  refine ⟨right, found, graded (boardOf faint) "d1" _ (fun r hr => ?_) rfl rfl⟩
  rw [List.mem_singleton.1 hr]
  exact ⟨_, ofShape?_faint⟩

end LinearForm
end HalfPlane
