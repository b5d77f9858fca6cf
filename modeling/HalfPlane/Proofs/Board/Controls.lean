/-
The boxes for choosing a side, and what a click on one is graded as.

A box is centred on the mark of its side, three units off the line along the normal. At a zoom
of twenty or more a box reaches at most two units from its mark in the direction of the normal
(`abs_slope_le`), so every point of it lies a unit or more off the line on the side of the mark,
where the value counts (`close_to_mark`). And the two marks stand so far apart that no pixel
lies in both boxes (`not_contains_both`).
-/
import Mathlib.Analysis.Real.Sqrt
import Mathlib.Tactic.FieldSimp
import Mathlib.Tactic.Linarith
import Mathlib.Tactic.LinearCombination
import Mathlib.Tactic.Ring
import HalfPlane.Proofs.Board.Grading

namespace HalfPlane
open Scalar

/-! ## The zoom of a board's window -/

section Window
variable {K : Type} [Field K] [LinearOrder K] [IsStrictOrderedRing K]

theorem View.standardMinZoom_eq : (View.standardMinZoom : K) = 20 := by
  unfold standardMinZoom
  norm_num

/-- A window of a board shows a unit in twenty pixels at least. -/
theorem View.Usual.twenty_le_zoom {v : View K} (h : v.Usual) : 20 ≤ v.zoom := by
  obtain ⟨z, hz⟩ := h.zoom
  have range : (20 : K) ≤ View.standardMaxZoom := by
    unfold View.standardMaxZoom
    norm_num
  have lower : 20 ≤ atLeast v.minZoom z := by
    unfold atLeast
    rw [h.minZoom, View.standardMinZoom_eq]
    split
    · next above => exact above.le
    · exact le_rfl
  rw [hz]
  unfold View.clampZoom atMost
  split
  · exact lower
  · rw [h.maxZoom]
    exact range

end Window

/-- Values of the same sign have the sign an operator wants, or do not. -/
theorem Operator.sense_mul_pos_congr {K : Type} [Field K] [LinearOrder K] [IsStrictOrderedRing K]
    (o : Operator) {v w : K} (positive : 0 < v ↔ 0 < w) (negative : v < 0 ↔ w < 0) :
    0 < o.sense * v ↔ 0 < o.sense * w := by
  cases o <;> simp [sense, positive, negative]

namespace Control
variable {K : Type} [Field K] [LinearOrder K]

/-! ## Boxes -/

/-- The box of a side whose mark stands at `p`. -/
def box (q : Inequality K) (v : View K) (side : Side) (p : Point K) (satisfies : Bool) :
    Control K :=
  let s := v.toScreen p
  ⟨q.label, side, s.x - 30, s.y - 15, 60, 30, q.color, satisfies, .region⟩

variable {q : Inequality K} {v : View K} {side : Side} {p : Point K} {satisfies : Bool}

theorem contains_iff {c : Control K} {s : Pixel K} :
    c.contains s = true ↔
      ((c.x ≤ s.x ∧ s.x ≤ c.x + c.width) ∧ c.y ≤ s.y) ∧ s.y ≤ c.y + c.height := by
  simp only [contains, Bool.and_eq_true, decide_eq_true_eq]

variable [IsStrictOrderedRing K]

theorem contains_box_iff {s : Pixel K} :
    (box q v side p satisfies).contains s = true ↔
      |s.x - (v.toScreen p).x| ≤ 30 ∧ |s.y - (v.toScreen p).y| ≤ 15 := by
  rw [contains_iff, abs_le, abs_le]
  dsimp only [box]
  constructor
  · rintro ⟨⟨⟨left, right⟩, top⟩, bottom⟩
    refine ⟨⟨?_, ?_⟩, ?_, ?_⟩ <;> linarith
  · rintro ⟨⟨left, right⟩, top, bottom⟩
    refine ⟨⟨⟨?_, ?_⟩, ?_⟩, ?_⟩ <;> linarith

/-! ## The plane under a box -/

/-- How far a value changes on the way from the mark to a pixel of the box, at most. -/
theorem abs_slope_le {a b dx dy length : K} (hx : |dx| ≤ 30) (hy : |dy| ≤ 15)
    (squares : length * length = a * a + b * b) : |a * dx - b * dy| ≤ 40 * |length| := by
  have wide : dx * dx ≤ 30 * 30 := by
    rw [← abs_mul_abs_self dx]
    exact mul_self_le_mul_self (abs_nonneg _) hx
  have high : dy * dy ≤ 15 * 15 := by
    rw [← abs_mul_abs_self dy]
    exact mul_self_le_mul_self (abs_nonneg _) hy
  have forty : 40 * |length| = |40 * length| := by
    rw [abs_mul, abs_of_pos (by norm_num : (0 : K) < 40)]
  rw [forty, abs_le_iff_mul_self_le]
  -- The inequality of Cauchy and Schwarz, with the square that it leaves out.
  calc (a * dx - b * dy) * (a * dx - b * dy)
      ≤ (a * dx - b * dy) * (a * dx - b * dy) + (a * dy + b * dx) * (a * dy + b * dx) :=
        le_add_of_nonneg_right (mul_self_nonneg _)
    _ = (a * a + b * b) * (dx * dx + dy * dy) := by ring
    _ ≤ (a * a + b * b) * (40 * 40) := by
        refine mul_le_mul_of_nonneg_left (by linarith) ?_
        exact add_nonneg (mul_self_nonneg a) (mul_self_nonneg b)
    _ = 40 * length * (40 * length) := by
        rw [← squares]
        ring

omit [IsStrictOrderedRing K] in
theorem evaluate_toPlane (f : LinearForm K) (p : Point K) (s : Pixel K) (zoom : v.zoom ≠ 0) :
    f.evaluate (v.toPlane s) - f.evaluate p =
      (f.a * (s.x - (v.toScreen p).x) - f.b * (s.y - (v.toScreen p).y)) / v.zoom := by
  simp only [LinearForm.evaluate, View.toPlane, View.toScreen]
  field_simp
  ring

variable [Hypot K] {f : LinearForm K} {mid : Point K} {n : Direction K}

/-- Where the mark of a side stands, by the middle of the line and its normal. -/
def markAt (mid : Point K) (n : Direction K) (side : Side) : Point K :=
  ⟨mid.x + n.dx * (side.sign * LinearForm.markOffset),
    mid.y + n.dy * (side.sign * LinearForm.markOffset)⟩

omit [IsStrictOrderedRing K] in
theorem mark_eq (h : f.Poised mid n) (side : Side) :
    f.mark side = .ok (some (markAt mid n side)) := by
  rw [LinearForm.mark, h.anchor_eq]
  rfl

omit [IsStrictOrderedRing K] in
theorem sideSatisfies_eq (h : f.Poised mid n) (side : Side) :
    f.sideSatisfies side = .ok (f.satisfies (markAt mid n side)) := by
  rw [LinearForm.sideSatisfies, mark_eq h]
  rfl

/-- The control of a side is the box around its mark. -/
theorem ofSide_eq (h : q.form.Poised mid n) (v : View K) (side : Side) :
    ofSide q v side =
      .ok (some (box q v side (markAt mid n side) (q.form.satisfies (markAt mid n side)))) := by
  have measures : (boxWidth : K) = 60 ∧ (boxHeight : K) = 30 := by
    unfold boxWidth boxHeight
    norm_num
  have halves : (60 / 2.0 : K) = 30 ∧ (30 / 2.0 : K) = 15 := by norm_num
  simp only [ofSide, mark_eq h, sideSatisfies_eq h, measures, halves]
  rfl

/-- The value at a mark is three times what it grows by along the normal. -/
theorem abs_evaluate_markAt (h : f.Poised mid n) (side : Side) :
    |f.evaluate (markAt mid n side)| = 3 * |f.growth n| := by
  rw [markAt, h.evaluate_along, abs_mul, abs_mul, side.abs_sign, one_mul,
    LinearForm.markOffset_eq, abs_of_pos (by norm_num)]

/-- Under a box the value differs from the one at the mark by two thirds of that at most. -/
theorem close_to_mark (h : f.Poised mid n) (zoom : 20 ≤ v.zoom) {s : Pixel K}
    (inside : |s.x - (v.toScreen p).x| ≤ 30 ∧ |s.y - (v.toScreen p).y| ≤ 15) :
    |f.evaluate p - f.evaluate (v.toPlane s)| ≤ 2 * |f.growth n| := by
  have positive : 0 < v.zoom := by linarith
  have slope := abs_slope_le inside.1 inside.2 (LinearForm.growth_mul_self h.unit h.normal)
  have widened : 40 * |f.growth n| ≤ 2 * |f.growth n| * v.zoom := by
    have room := mul_le_mul_of_nonneg_left zoom (abs_nonneg (f.growth n))
    linarith
  rw [abs_sub_comm, evaluate_toPlane f p s positive.ne', abs_div, abs_of_pos positive,
    div_le_iff₀ positive]
  exact slope.trans widened

/-- What a point under a box is worth is what the mark is worth. -/
theorem satisfies_toPlane (h : f.Poised mid n) (zoom : 20 ≤ v.zoom) {s : Pixel K}
    (inside : |s.x - (v.toScreen (markAt mid n side)).x| ≤ 30 ∧
      |s.y - (v.toScreen (markAt mid n side)).y| ≤ 15) :
    f.satisfies (v.toPlane s) = f.satisfies (markAt mid n side) := by
  have positive : 0 < |f.growth n| := tolerance_pos.trans_le h.counts
  have close := close_to_mark h zoom inside
  have size := abs_evaluate_markAt h side
  have counts : tolerance ≤ |f.evaluate (v.toPlane s)| := by
    have left := abs_sub_abs_le_abs_sub (f.evaluate (markAt mid n side)) (f.evaluate (v.toPlane s))
    linarith [h.counts]
  have countsAtMark : tolerance ≤ |f.evaluate (markAt mid n side)| := by linarith [h.counts]
  have signs := pos_iff_of_abs_sub_lt (show _ < _ by rw [size]; linarith)
  have here := LinearForm.satisfies_of_counts f.operator counts
  have atMark := LinearForm.satisfies_of_counts f.operator countsAtMark
  exact here.trans ((decide_eq_decide.2 (f.operator.sense_mul_pos_congr signs.1 signs.2).symm).trans
    atMark.symm)

/-- No pixel lies in both boxes of an inequality: their marks are six units apart along the
normal, and the boxes reach no further than half of that. -/
theorem not_contains_both (h : q.form.Poised mid n) (zoom : 20 ≤ v.zoom) {a b : Bool}
    (s : Pixel K) :
    ¬ ((box q v .regionA (markAt mid n .regionA) a).contains s = true ∧
      (box q v .regionB (markAt mid n .regionB) b).contains s = true) := by
  rw [contains_box_iff, contains_box_iff]
  simp only [View.toScreen, markAt, LinearForm.markOffset_eq, Side.sign_regionA,
    Side.sign_regionB, abs_le]
  rintro ⟨⟨⟨ax, ax'⟩, ay, ay'⟩, ⟨bx, bx'⟩, by', by''⟩
  have positive : 0 < v.zoom := by linarith
  have across : |n.dx * v.zoom| ≤ 10 := by
    rw [abs_le]
    constructor <;> linarith
  have along : |n.dy * v.zoom| ≤ 5 := by
    rw [abs_le]
    constructor <;> linarith
  have wide := mul_self_le_mul_self (abs_nonneg _) across
  have high := mul_self_le_mul_self (abs_nonneg _) along
  rw [abs_mul_abs_self] at wide high
  have zoomed : v.zoom * v.zoom = n.dx * v.zoom * (n.dx * v.zoom) +
      n.dy * v.zoom * (n.dy * v.zoom) := by
    linear_combination (-(v.zoom * v.zoom)) * h.unit
  have large := mul_self_le_mul_self (by norm_num) zoom
  linarith

variable [EuclideanLength K]

/-- Every control belongs to an unsolved inequality, and a point under it solves the form of that
one exactly if the control says so. -/
theorem satisfies_of_contains {qs : List (Inequality K)} {cs : List (Control K)} {c : Control K}
    (proper : ∀ q ∈ qs, q.form.Proper) (made : ofInequalities v qs = .ok cs) (hc : c ∈ cs)
    (zoom : 20 ≤ v.zoom) {s : Pixel K} (inside : c.contains s = true) :
    ∃ q ∈ qs, q.label = c.label ∧ q.solution.isSolved = false ∧
      q.form.sideSatisfies c.side = .ok (q.form.satisfies (v.toPlane s)) ∧
      q.form.satisfies (v.toPlane s) = c.satisfies := by
  obtain ⟨q, hq, unsolved, side, made⟩ := exists_ofSide made hc
  obtain ⟨mid, n, h⟩ := (proper q hq).exists_poised
  rw [ofSide_eq h] at made
  obtain rfl : box q v side _ _ = c := Option.some.inj (Except.ok.inj made)
  have under := satisfies_toPlane h zoom (contains_box_iff.1 inside)
  refine ⟨q, hq, rfl, unsolved, ?_, under⟩
  rw [under]
  exact sideSatisfies_eq h side

end Control

namespace Board
variable {K : Type} [Field K] [LinearOrder K] [IsStrictOrderedRing K] [Hypot K] [EuclideanLength K]

/-- A click on a control is graded as the point under it. -/
theorem click_result {b : Board K} (window : b.view.Usual)
    (proper : ∀ q ∈ b.inequalities, q.form.Proper)
    (equations : ∀ q ∈ b.inequalities, q.form.operator = .eq → q.solution.isSolved = true)
    (labels : (b.inequalities.map (·.label)).Nodup) {s : Pixel K}
    (noCorner : Vertex.at? b.vertices b.view s Vertex.hitRadius = none)
    {controls : List (Control K)}
    (made : Control.ofInequalities b.view b.inequalities = .ok controls)
    {c : Control K} (hit : Control.at? controls s = some c) :
    ∃ q ∈ b.inequalities, q.label = c.label ∧ q.solution.isSolved = false ∧
      (b.click s).1 =
        .ok (some (if q.form.satisfies (b.view.toPlane s) then .correct else .incorrect)) := by
  have inside := Control.contains_of_at? hit
  obtain ⟨q, hq, label, unsolved, graded, -⟩ := Control.satisfies_of_contains proper made
    (Control.mem_of_at? hit) window.twenty_le_zoom inside
  have region : q.form.operator ≠ .eq := by
    intro equation
    rw [equations q hq equation] at unsolved
    cases unsolved
  have found : b.find? c.label = some q := label ▸ find?_label labels hq
  have lines : AllHaveLines b.inequalities := fun r hr => (proper r hr).hasLine
  refine ⟨q, hq, label, unsolved, ?_⟩
  simp only [click, noCorner, made, hit]
  rw [chooseRegion_result lines found region graded]
  rfl

end Board

namespace Control
variable {K : Type} [Field K] [LinearOrder K] [IsStrictOrderedRing K] [Hypot K] [EuclideanLength K]

/-- An unsolved inequality whose form was read has two controls, side A before side B. No pixel
lies in both, and the point under a pixel of one of them solves the form exactly if the control
says so. On a board, a click on a control is graded as the point that was clicked. -/
theorem graded_as_clicked {shape : Shape K} {q : Inequality K}
    (read : LinearForm.ofShape? shape = some q.form) (unsolved : q.solution = .unsolved)
    {v : View K} (zoom : 20 ≤ v.zoom) :
    (∃ a b : Control K, ofInequalities v [q] = .ok [a, b] ∧
      a.side = .regionA ∧ b.side = .regionB ∧
      (∀ s, ¬ (a.contains s = true ∧ b.contains s = true)) ∧
      ∀ c ∈ [a, b], ∀ s, c.contains s = true → q.form.satisfies (v.toPlane s) = c.satisfies) ∧
    ∀ b : Board K, b.view.Usual →
      (∀ r ∈ b.inequalities, ∃ shape, LinearForm.ofShape? shape = some r.form) →
      (∀ r ∈ b.inequalities, r.form.operator = .eq → r.solution.isSolved = true) →
      (b.inequalities.map (·.label)).Nodup →
      ∀ s controls c, Vertex.at? b.vertices b.view s Vertex.hitRadius = none →
        ofInequalities b.view b.inequalities = .ok controls → at? controls s = some c →
        ∃ r ∈ b.inequalities, r.label = c.label ∧ r.solution.isSolved = false ∧
          (b.click s).1 =
            .ok (some (if r.form.satisfies (b.view.toPlane s) then .correct else .incorrect)) := by
  have proper := LinearForm.Proper.of_ofShape? read
  obtain ⟨mid, n, h⟩ := proper.exists_poised
  have made : ofInequalities v [q] = .ok [
      box q v .regionA (markAt mid n .regionA) (q.form.satisfies (markAt mid n .regionA)),
      box q v .regionB (markAt mid n .regionB) (q.form.satisfies (markAt mid n .regionB))] := by
    simp only [ofInequalities, unsolved, Solution.isSolved, ofSide_eq h]
    rfl
  refine ⟨⟨_, _, made, rfl, rfl, not_contains_both h zoom, fun c hc s inside => ?_⟩, ?_⟩
  · have all : ∀ r ∈ [q], r.form.Proper := fun r hr => by rwa [List.mem_singleton.1 hr]
    obtain ⟨r, hr, -, -, -, under⟩ := satisfies_of_contains all made hc zoom inside
    rwa [List.mem_singleton.1 hr] at under
  · intro b window readAll equations labels s controls c noCorner made hit
    have all : ∀ r ∈ b.inequalities, r.form.Proper := fun r hr => by
      obtain ⟨shape, read⟩ := readAll r hr
      exact .of_ofShape? read
    exact Board.click_result window all equations labels noCorner made hit

end Control

/-! ## A click on the corner of a box -/

namespace LinearForm

theorem poised_faint : faint.Poised ⟨0, 0⟩ ⟨0, 1⟩ := by
  have positive := tolerance_pos (K := ℝ)
  have far : faint.boundary = .ok (⟨-reach, 0⟩, ⟨reach, 0⟩) := by
    have counts : tolerance ≤ Scalar.abs faint.b := by
      rw [Scalar.abs_eq]
      exact le_abs_self _
    rw [boundary, if_pos counts]
    simp [faint]
  have reaches : (reach : ℝ) = 10000 := by
    unfold reach
    norm_num
  have length : Hypot.hypot (reach - -reach : ℝ) (0 - 0) = 20000 := by
    rw [hypot_eq_iff (by norm_num), reaches]
    norm_num
  refine ⟨?_, ?_, ?_, ?_, ?_, ?_⟩
  · simp only [midpoint, far]
    show Except.ok (halfway _ _) = _
    simp [halfway]
  · have long : ¬ (20000 : ℝ) < tolerance := by linarith [tolerance_le_one (K := ℝ)]
    simp only [unitNormal, far]
    show (if Hypot.hypot (reach - -reach : ℝ) (0 - 0) < tolerance then _ else _) = _
    rw [length, if_neg long, reaches]
    show Except.ok (some _) = _
    norm_num
  · simp [evaluate, faint]
  · norm_num
  · simp [faint]
  · simp only [growth, faint]
    rw [zero_mul, zero_add, mul_one]
    exact le_abs_self _

/-- Above its line the faint form holds as soon as its value counts. -/
theorem satisfies_faint {p : Point ℝ} (away : 1 ≤ |p.y|) :
    faint.satisfies p = decide (0 < p.y) := by
  have value : faint.evaluate p = tolerance * p.y := by
    simp [evaluate, faint]
  have positive := tolerance_pos (K := ℝ)
  have counts : tolerance ≤ |faint.evaluate p| := by
    rw [value, abs_mul, abs_of_pos positive]
    exact le_mul_of_one_le_right positive.le away
  have solves := satisfies_of_counts faint.operator counts
  rw [value] at solves
  refine solves.trans (decide_eq_decide.2 ?_)
  simp [faint, Operator.sense, positive]

theorem usual_boardOf (f : LinearForm ℝ) : (boardOf f).view.Usual where
  area := by norm_num [boardOf]
  minZoom := View.standardMinZoom_eq.symm
  maxZoom := by
    unfold View.standardMaxZoom
    norm_num [boardOf]
  zoom := ⟨40, by norm_num [boardOf, View.clampZoom, atMost, atLeast]⟩

end LinearForm

namespace Control
open LinearForm

noncomputable def faintInequality : Inequality ℝ := ⟨faint, "d1", "#4e31aa", "", "", .unsolved⟩

/-- The control of a side of the faint form on a board. -/
noncomputable def faintBox (side : Side) : Control ℝ :=
  box faintInequality (boardOf faint).view side (markAt ⟨0, 0⟩ ⟨0, 1⟩ side)
    (faint.satisfies (markAt ⟨0, 0⟩ ⟨0, 1⟩ side))

theorem ofInequalities_faint : ofInequalities (boardOf faint).view (boardOf faint).inequalities =
    .ok [faintBox .regionA, faintBox .regionB] := by
  have unsolved : faintInequality.solution.isSolved = false := rfl
  show ofInequalities (boardOf faint).view [faintInequality] = _
  simp only [ofInequalities, unsolved, ofSide_eq (q := faintInequality) poised_faint]
  rfl

theorem contains_faintBox {side : Side} {s : Pixel ℝ} :
    (faintBox side).contains s = true ↔
      |s.x - 300| ≤ 30 ∧ |s.y - (300 - side.sign * 120)| ≤ 15 := by
  have x : ((boardOf faint).view.toScreen (markAt ⟨0, 0⟩ ⟨0, 1⟩ side)).x = 300 := by
    simp [View.toScreen, markAt, boardOf]
  have y : ((boardOf faint).view.toScreen (markAt ⟨0, 0⟩ ⟨0, 1⟩ side)).y =
      300 - side.sign * 120 := by
    simp only [View.toScreen, markAt, LinearForm.markOffset_eq, boardOf]
    ring
  rw [faintBox, contains_box_iff, x, y]

/-- At the smallest zoom and with the smallest coefficient the boxes are apart and graded alike,
and on a board the corner of a box that is nearest to the line is graded as the box. -/
theorem graded_as_clicked_of_faint :
    (∃ a b : Control ℝ, ofInequalities ⟨600, 600, 20, ⟨300, 300⟩, 20, 100⟩ [faintInequality] =
        .ok [a, b] ∧ (∀ s, ¬ (a.contains s = true ∧ b.contains s = true)) ∧
      ∀ c ∈ [a, b], ∀ s, c.contains s = true →
        faint.satisfies (View.toPlane ⟨600, 600, 20, ⟨300, 300⟩, 20, 100⟩ s) = c.satisfies) ∧
    ((boardOf faint).click ⟨330, 195⟩).1 = .ok (some .correct) ∧
    ((boardOf faint).click ⟨270, 405⟩).1 = .ok (some .incorrect) := by
  obtain ⟨⟨a, b, made, -, -, apart, alike⟩, clicks⟩ :=
    graded_as_clicked (q := faintInequality) (v := ⟨600, 600, 20, ⟨300, 300⟩, 20, 100⟩)
      ofShape?_faint rfl le_rfl
  have clicked : ∀ (s : Pixel ℝ) (c : Control ℝ),
      at? [faintBox .regionA, faintBox .regionB] s = some c → ∃ r ∈ (boardOf faint).inequalities,
        r.label = c.label ∧ r.solution.isSolved = false ∧ ((boardOf faint).click s).1 =
          .ok (some (if r.form.satisfies ((boardOf faint).view.toPlane s) then .correct
            else .incorrect)) := by
    intro s c hit
    refine clicks (boardOf faint) (usual_boardOf faint) (fun r hr => ?_) (fun r hr => ?_)
      (List.nodup_singleton _) s _ c rfl ofInequalities_faint hit
    · rw [List.mem_singleton.1 hr]
      exact ⟨_, ofShape?_faint⟩
    · rw [List.mem_singleton.1 hr]
      intro equation
      cases equation
  refine ⟨⟨a, b, made, apart, alike⟩, ?_, ?_⟩
  · have inside : (faintBox .regionB).contains ⟨330, 195⟩ = true :=
      contains_faintBox.2 (by norm_num)
    obtain ⟨r, hr, -, -, graded⟩ := clicked ⟨330, 195⟩ (faintBox .regionB)
      (List.find?_cons_of_pos inside)
    rw [List.mem_singleton.1 hr, satisfies_faint (by norm_num [View.toPlane, boardOf, abs_of_pos])]
      at graded
    rw [graded, if_pos (by norm_num [View.toPlane, boardOf])]
  · have outside : ¬ (faintBox .regionB).contains ⟨270, 405⟩ = true := fun inside => by
      have far := (contains_faintBox.1 inside).2
      norm_num [abs_of_pos] at far
    have inside : (faintBox .regionA).contains ⟨270, 405⟩ = true :=
      contains_faintBox.2 (by norm_num [abs_of_neg])
    have hit : at? [faintBox .regionA, faintBox .regionB] ⟨270, 405⟩ =
        some (faintBox .regionA) := by
      simp [at?, outside, inside]
    obtain ⟨r, hr, -, -, graded⟩ := clicked ⟨270, 405⟩ (faintBox .regionA) hit
    rw [List.mem_singleton.1 hr, satisfies_faint (by norm_num [View.toPlane, boardOf, abs_of_neg])]
      at graded
    rw [graded, if_neg (by norm_num [View.toPlane, boardOf])]

end Control
end HalfPlane
