/-
Where the name of a line stands.

A frame draws the stretch of a line between its far points, and names the line where a window shows
part of that stretch. In a window on the plane within reach nothing else of the line can be seen: an
upright line is within reach from the bottom of the window to its top, and any other from the left
to the right (`Proper.exists_along`). So the name is there exactly if the line meets the window, and
it stands at a point of the line in the window (`name_iff_visible`).
-/
import Mathlib.Tactic.FieldSimp
import Mathlib.Tactic.Linarith
import Mathlib.Tactic.Ring
import HalfPlane.Proofs.Geometry.Sides
import HalfPlane.Proofs.Scene.Clip
import HalfPlane.Scene.Frame

namespace HalfPlane
open Scalar Clip

section Field
variable {K : Type} [Field K] [LinearOrder K]

/-! ## From the plane to the screen -/

/-- The point that has gone the part `r` of the way from one point to another. -/
def Point.along (p q : Point K) (r : K) : Point K :=
  ⟨p.x + r * (q.x - p.x), p.y + r * (q.y - p.y)⟩

theorem View.toScreen_along (v : View K) (p q : Point K) (r : K) :
    v.toScreen (p.along q r) = along (v.toScreen p) (v.toScreen q) r := by
  simp only [toScreen, Point.along, along, Pixel.mk.injEq]
  constructor <;> ring

theorem LinearForm.evaluate_between {f : LinearForm K} {p q : Point K} (hp : f.evaluate p = 0)
    (hq : f.evaluate q = 0) (r : K) : f.evaluate (p.along q r) = 0 := by
  have value : f.evaluate (p.along q r) = (1 - r) * f.evaluate p + r * f.evaluate q := by
    simp only [evaluate, Point.along]
    ring
  rw [value, hp, hq, mul_zero, mul_zero, add_zero]

variable [IsStrictOrderedRing K]

/-- A window shows the points between its bounds. -/
theorem View.within_bounds {v : View K} (zoom : 0 < v.zoom) {x : Point K}
    (inside : InWindow v.width v.height (v.toScreen x)) :
    (v.bounds.xMin ≤ x.x ∧ x.x ≤ v.bounds.xMax) ∧ v.bounds.yMin ≤ x.y ∧ x.y ≤ v.bounds.yMax := by
  obtain ⟨⟨left, right⟩, top, bottom⟩ := inside
  simp only [toScreen] at left right top bottom
  simp only [bounds, toPlane, decimal_zero, div_le_iff₀ zoom, le_div_iff₀ zoom]
  exact ⟨⟨by linarith, by linarith⟩, by linarith, by linarith⟩

/-! ## The stretch of a line within reach -/

/-- Between two numbers every number has gone some part of the way. -/
theorem exists_share {x : K} (low : -reach ≤ x) (high : x ≤ reach) :
    ∃ r, 0 ≤ r ∧ r ≤ 1 ∧ x = -reach + r * (reach - -reach) := by
  have wide : (0 : K) < reach - -reach := sub_pos.2 LinearForm.neg_reach_lt_reach
  refine ⟨(x - -reach) / (reach - -reach), div_nonneg (by linarith) wide.le, ?_, ?_⟩
  · rw [div_le_one wide]
    linarith
  · rw [div_mul_cancel₀ _ wide.ne']
    ring

/-- Within reach a point of the line lies between the far points. -/
theorem LinearForm.Proper.exists_along {f : LinearForm K} (h : f.Proper) {p q x : Point K}
    (boundary : f.boundary = .ok (p, q)) (on : f.evaluate x = 0)
    (xs : -reach ≤ x.x ∧ x.x ≤ reach) (ys : -reach ≤ x.y ∧ x.y ≤ reach) :
    ∃ r, 0 ≤ r ∧ r ≤ 1 ∧ x = p.along q r := by
  rw [evaluate] at on
  rcases h.second with upright | counts
  · have first : f.a ≠ 0 := fun zero => h.unknowns ⟨zero, upright⟩
    rw [boundary_of_upright upright first] at boundary
    cases boundary
    obtain ⟨r, nonneg, le_one, part⟩ := exists_share ys.1 ys.2
    refine ⟨r, nonneg, le_one, ?_⟩
    have across : x.x = -f.c / f.a := by
      rw [eq_div_iff first]
      linear_combination on - x.y * upright
    cases x
    simp only [Point.along, sub_self, mul_zero, add_zero, Point.mk.injEq]
    exact ⟨across, part⟩
  · have second : f.b ≠ 0 := ne_zero_of_counts counts
    rw [boundary_of_counts counts] at boundary
    cases boundary
    obtain ⟨r, nonneg, le_one, part⟩ := exists_share xs.1 xs.2
    refine ⟨r, nonneg, le_one, ?_⟩
    have height : x.y = (-f.c - f.a * x.x) / f.b := by
      rw [eq_div_iff second]
      linear_combination on
    cases x
    simp only [Point.along, Point.mk.injEq]
    refine ⟨part, height.trans ?_⟩
    dsimp only at part
    rw [part]
    field_simp
    ring

end Field

namespace Scene

/-! ## Names -/

theorem succeeds_fill {α : Type} [Scalar α] [Hypot α] {q : Inequality α} (line : q.form.HasLine)
    (v : View α) (strong : Bool) : Succeeds (fill q v strong) := by
  unfold fill
  split
  · exact .pure _
  · next side _ =>
    refine (line.shade (some side)).bind fun corners? => ?_
    cases corners? <;> exact .pure _

theorem not_mem_fill {α : Type} [Scalar α] [Hypot α] {q : Inequality α} {v : View α}
    {strong : Bool} {ms : List (Mark α)} (h : fill q v strong = .ok ms) (l : Label α) :
    .label l ∉ ms := by
  unfold fill at h
  split at h
  · cases h
    simp
  · obtain ⟨corners?, -, h⟩ := bind_ok_iff.1 h
    cases corners? with
    | none =>
      cases h
      simp
    | some corners =>
      cases h
      simp

/-- The label that names a line at a point of the screen. -/
def nameAt {α : Type} [Scalar α] (q : Inequality α) (place : Pixel α) : Label α :=
  ⟨⟨place.x + 5.0, place.y - 5.0⟩, q.label, q.color, 14.0, .left, .bottom, true, .label⟩

section Exact
variable {K : Type} [Field K] [LinearOrder K] [IsStrictOrderedRing K]

/-- A segment is named exactly if a window shows part of it, and there. -/
theorem lineName_cases (q : Inequality K) (v : View K) (s t : Pixel K) :
    ((∀ p, OnSegment s t p → ¬ InWindow v.width v.height p) ∧ lineName q v s t = []) ∨
      ∃ place, OnSegment s t place ∧ InWindow v.width v.height place ∧
        lineName q v s t = [.label (nameAt q place)] := by
  obtain ⟨hidden, shown⟩ := segment_is_visible s t v.width v.height
  unfold lineName
  cases cut : segment s t v.width v.height with
  | none => exact .inl ⟨hidden.1 cut, rfl⟩
  | some ends =>
    obtain ⟨near, far⟩ := ends
    have between : OnSegment near far (namePlace near far) :=
      ⟨0.85, by norm_num, by norm_num, rfl⟩
    obtain ⟨on, inside⟩ := ((shown near far cut).1 _).1 between
    exact .inr ⟨_, on, inside, rfl⟩

variable [Hypot K] [EuclideanLength K]

/-- In a window on the plane within reach the marks of an inequality that was read name it exactly
if its line meets the window, and then at a point of the line in the window. The windows of a
board have a positive zoom (`Clamped.zoom_pos`). -/
theorem name_iff_visible {shape : Shape K} {q : Inequality K}
    (read : LinearForm.ofShape? shape = some q.form) {v : View K} (zoom : 0 < v.zoom)
    (xs : -reach ≤ v.bounds.xMin ∧ v.bounds.xMax ≤ reach)
    (ys : -reach ≤ v.bounds.yMin ∧ v.bounds.yMax ≤ reach) (strong : Bool) :
    ∃ ms, inequality v strong q = .ok ms ∧
      ((∃ l, .label l ∈ ms) ↔
        ∃ x, q.form.evaluate x = 0 ∧ InWindow v.width v.height (v.toScreen x)) ∧
      ∀ l, .label l ∈ ms → l.text = q.label ∧
        ∃ x, q.form.evaluate x = 0 ∧ InWindow v.width v.height (v.toScreen x) ∧
          l.place = ⟨(v.toScreen x).x + 5, (v.toScreen x).y - 5⟩ := by
  have proper := LinearForm.Proper.of_ofShape? read
  obtain ⟨p, r, boundary, hp, hr, -⟩ := proper.exists_boundary
  obtain ⟨shading, shaded⟩ := succeeds_fill proper.hasLine v strong
  have marks : inequality v strong q = .ok (shading ++
      .segment ⟨v.toScreen p, v.toScreen r, q.color, if strong then 3.0 else 2.0,
        q.form.operator.strict, .boundary⟩ :: lineName q v (v.toScreen p) (v.toScreen r)) := by
    simp only [inequality, shaded, boundary]
    rfl
  refine ⟨_, marks, ?_⟩
  simp only [List.mem_append, List.mem_cons, not_mem_fill shaded, false_or, reduceCtorEq]
  rcases lineName_cases q v (v.toScreen p) (v.toScreen r) with
    ⟨hidden, nameless⟩ | ⟨place, ⟨part, nonneg, le_one, rfl⟩, inside, named⟩
  · rw [nameless]
    refine ⟨iff_of_false (fun ⟨l, hl⟩ => List.not_mem_nil hl) ?_, fun l hl => by cases hl⟩
    rintro ⟨x, on, inside⟩
    -- A point of the line in the window is within reach, so its stretch is not hidden.
    obtain ⟨⟨left, right⟩, low, high⟩ := v.within_bounds zoom inside
    obtain ⟨part, nonneg, le_one, rfl⟩ := proper.exists_along boundary on
      ⟨xs.1.trans left, right.trans xs.2⟩ ⟨ys.1.trans low, high.trans ys.2⟩
    exact hidden _ ⟨part, nonneg, le_one, v.toScreen_along p r part⟩ inside
  · rw [named]
    rw [← v.toScreen_along] at inside ⊢
    have on := LinearForm.evaluate_between hp hr part
    refine ⟨iff_of_true ⟨_, List.mem_singleton_self _⟩ ⟨_, on, inside⟩, fun l hl => ?_⟩
    obtain rfl := Mark.label.inj (List.mem_singleton.1 hl)
    have five : (5.0 : K) = 5 := by norm_num
    refine ⟨rfl, _, on, inside, ?_⟩
    rw [nameAt, five]

end Exact

/-- The level line through the origin is named in a window around it, with one side claimed. -/
theorem name_iff_visible_of_faint : ∃ ms : List (Mark ℝ),
    inequality ⟨600, 600, 40, ⟨300, 300⟩, 20, 100⟩ true
      ⟨.faint, "d1", "#4e31aa", "", "", .solved (some .regionB)⟩ = .ok ms ∧
    ∃ l, .label l ∈ ms ∧ l.text = "d1" := by
  obtain ⟨ms, marks, shown, placed⟩ := name_iff_visible
    (q := ⟨.faint, "d1", "#4e31aa", "", "", .solved (some .regionB)⟩)
    (v := ⟨600, 600, 40, ⟨300, 300⟩, 20, 100⟩) LinearForm.ofShape?_faint (by norm_num)
    (by norm_num [View.bounds, View.toPlane, reach])
    (by norm_num [View.bounds, View.toPlane, reach]) true
  obtain ⟨l, hl⟩ := shown.2 ⟨⟨0, 0⟩, by simp [LinearForm.evaluate, LinearForm.faint],
    by norm_num [InWindow, View.toScreen]⟩
  exact ⟨ms, marks, l, hl, (placed l hl).1⟩

end Scene
end HalfPlane
