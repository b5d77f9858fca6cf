/-
The lines of the grid and the numbers along the axes, in exact arithmetic.

The bounds of a window are rounded to integers inwards, so the integers between them are those whose
lines the window shows (`mem_across_iff`, `mem_upright_iff`), on its edges too. A grid has one line
for each of them. An axis that crosses the window numbers the same integers but zero, each beside
its line (`grid_at_integers`).
-/
import Mathlib.Algebra.Order.Floor.Ring
import Mathlib.Data.List.Sort
import Mathlib.Data.Rat.Floor
import Mathlib.Tactic.Linarith
import Mathlib.Tactic.NormNum
import HalfPlane.Proofs.Exact
import HalfPlane.Proofs.Scene.Frame
import Std.Data.String.ToInt

namespace HalfPlane
open Scalar

/-! ## Rounding without a limit -/

section Floor
variable {K : Type} [Field K] [LinearOrder K] [FloorRing K]

instance (priority := low) Rounding.ofFloorRing : Rounding K :=
  ⟨fun x => .ok ⌊x⌋, fun x => .ok ⌈x⌉⟩

theorem floor?_eq (x : K) : floor? x = .ok ⌊x⌋ := rfl

theorem ceil?_eq (x : K) : ceil? x = .ok ⌈x⌉ := rfl

end Floor

/-! ## What is seen of a grid -/

/-- Where a whole number stands along an axis, and which one it is. -/
def Mark.number? {α : Type} : Mark α → Option (Pixel α × Int)
  | .label l => if l.layer = .axis then l.text.toInt?.map (l.place, ·) else none
  | _ => none

namespace Grid

/-! ## Integers between bounds -/

theorem mem_integers_iff {low high n : Int} : n ∈ integers low high ↔ low ≤ n ∧ n ≤ high := by
  simp only [integers, List.mem_map, List.mem_range]
  constructor
  · rintro ⟨k, hk, rfl⟩
    omega
  · rintro ⟨above, below⟩
    exact ⟨(n - low).toNat, by omega, by omega⟩

theorem integers_ascending (low high : Int) : (integers low high).Pairwise (· < ·) := by
  rw [integers, List.pairwise_map]
  exact List.pairwise_lt_range.imp fun h => by omega

/-! ## Lines and numbers -/

section Marks
variable {α : Type} [Scalar α]

/-- The upright line of a grid at a place across the window. -/
def uprightLine (v : View α) (x : α) : Mark α :=
  .segment ⟨⟨x, 0.0⟩, ⟨x, v.height⟩, Theme.grid, 1.0, false, .grid⟩

/-- The level line of a grid at a place down the window. -/
def levelLine (v : View α) (y : α) : Mark α :=
  .segment ⟨⟨0.0, y⟩, ⟨v.width, y⟩, Theme.grid, 1.0, false, .grid⟩

theorem lines_eq (v : View α) (xs ys : List Int) :
    lines v xs ys =
      (xs.map fun i => uprightLine v (across v i)) ++ ys.map fun j => levelLine v (upright v j) :=
  rfl

theorem filter_grid (v : View α) (xs ys : List Int) :
    (lines v xs ys ++ axes v xs ys).filter (·.layer = .grid) = lines v xs ys := by
  have grid : (lines v xs ys).filter (·.layer = .grid) = lines v xs ys :=
    List.filter_eq_self.2 fun m hm => by rw [layer_of_mem_lines hm]; rfl
  have axis : (axes v xs ys).filter (·.layer = .grid) = [] :=
    List.filter_eq_nil_iff.2 fun m hm => by rw [layer_of_mem_axes hm]; decide
  rw [List.filter_append, grid, axis, List.append_nil]

theorem filterMap_number?_lines (v : View α) (xs ys : List Int) :
    (lines v xs ys).filterMap Mark.number? = [] := by
  refine List.filterMap_eq_nil_iff.2 fun m hm => ?_
  rw [lines_eq, List.mem_append, List.mem_map, List.mem_map] at hm
  rcases hm with ⟨i, -, rfl⟩ | ⟨j, -, rfl⟩ <;> rfl

theorem number?_number (place : Pixel α) (n : Int) (a : Across) (u : Upright) :
    (number place n a u).number? = some (place, n) := by
  have read : (toString n).toInt? = some n := Int.toInt?_repr n
  simp only [number, Mark.number?, if_true, read, Option.map_some]

/-- A row of whole numbers shows each of them at its place. -/
theorem filterMap_number?_numbers (ns : List Int) (place : Int → Pixel α) (a : Across)
    (u : Upright) :
    (ns.map fun n => number (place n) n a u).filterMap Mark.number? =
      ns.map fun n => (place n, n) := by
  rw [List.filterMap_map, ← List.filterMap_eq_map]
  exact List.filterMap_congr fun n _ => number?_number _ n a u

/-- A text with a letter in it is no integer. -/
theorem toInt?_of_letter {s : String} {c : Char} (hc : c ∈ s.toList)
    (letter : c.isDigit = false ∧ c ≠ '_' ∧ c ≠ '-') : s.toInt? = none := by
  have other {t : String} (ht : t.isNat = true) : c ∉ t.toList := fun inside => by
    rcases (String.isNat_iff.1 ht).2.1 c inside with digit | line
    · rw [letter.1] at digit
      cases digit
    · exact letter.2.1 line
  rw [String.toInt?_eq_none_iff, Bool.eq_false_iff, ne_eq, String.isInt_iff]
  rintro (natural | ⟨t, rfl, natural⟩)
  · exact other natural hc
  · rw [String.toList_append, List.mem_append] at hc
    rcases hc with minus | inside
    · exact letter.2.2 (List.mem_singleton.1 minus)
    · exact other natural inside

omit [Scalar α] in
/-- The name of an axis, or of the origin, is no number. -/
theorem number?_name (place : Pixel α) (size : α) {text : String} (h : text.toInt? = none) :
    (name place text size).number? = none := by
  simp only [name, Mark.number?, if_true, h, Option.map_none]

theorem filterMap_number?_xAxis (v : View α) (xs : List Int) :
    (xAxis v xs).filterMap Mark.number? =
      (xs.filter (· ≠ 0)).map fun i => (⟨across v i, v.origin.y + 5.0⟩, i) := by
  have word : "x".toInt? = none := toInt?_of_letter (c := 'x') (by simp) (by decide)
  simp only [xAxis]
  rw [List.filterMap_append, filterMap_number?_numbers, List.filterMap_cons_none rfl,
    List.filterMap_cons_none rfl, List.filterMap_cons_none (number?_name _ _ word),
    List.filterMap_nil, List.nil_append]

theorem filterMap_number?_yAxis (v : View α) (ys : List Int) :
    (yAxis v ys).filterMap Mark.number? =
      (ys.filter (· ≠ 0)).map fun j => (⟨v.origin.x - 5.0, upright v j⟩, j) := by
  have word : "y".toInt? = none := toInt?_of_letter (c := 'y') (by simp) (by decide)
  simp only [yAxis]
  rw [List.filterMap_append, filterMap_number?_numbers, List.filterMap_cons_none rfl,
    List.filterMap_cons_none rfl, List.filterMap_cons_none (number?_name _ _ word),
    List.filterMap_nil, List.nil_append]

/-- The numbers of a grid are those along the axes that cross the window. -/
theorem filterMap_number? (v : View α) (xs ys : List Int) :
    (lines v xs ys ++ axes v xs ys).filterMap Mark.number? =
      (if showsX v then
        (xs.filter (· ≠ 0)).map fun i => (⟨across v i, v.origin.y + 5.0⟩, i) else []) ++
      if showsY v then
        (ys.filter (· ≠ 0)).map fun j => (⟨v.origin.x - 5.0, upright v j⟩, j) else [] := by
  have word : "O".toInt? = none := toInt?_of_letter (c := 'O') (by simp) (by decide)
  have origin (place : Pixel α) : [name place "O" (12.0 : α)].filterMap Mark.number? = [] := by
    rw [List.filterMap_cons_none (number?_name _ _ word), List.filterMap_nil]
  rw [List.filterMap_append, filterMap_number?_lines, List.nil_append, axes,
    List.filterMap_append, List.filterMap_append]
  simp only [apply_ite (List.filterMap Mark.number?), filterMap_number?_xAxis,
    filterMap_number?_yAxis, origin, List.filterMap_nil, ite_self, List.append_nil]

end Marks

/-! ## In exact arithmetic -/

section Exact
variable {K : Type} [Field K] [LinearOrder K]

theorem across_eq (v : View K) (i : ℤ) : across v i = v.origin.x + i * v.zoom := by
  rw [across, ofInt_eq]

theorem upright_eq (v : View K) (j : ℤ) : upright v j = v.origin.y - j * v.zoom := by
  rw [upright, ofInt_eq]

variable [IsStrictOrderedRing K]

theorem showsX_iff (v : View K) :
    showsX v = true ↔ 0 ≤ v.origin.y ∧ v.origin.y ≤ v.height := by
  rw [showsX, Bool.and_eq_true, decide_eq_true_eq, decide_eq_true_eq, decimal_zero]

theorem showsY_iff (v : View K) :
    showsY v = true ↔ 0 ≤ v.origin.x ∧ v.origin.x ≤ v.width := by
  rw [showsY, Bool.and_eq_true, decide_eq_true_eq, decide_eq_true_eq, decimal_zero]

variable [FloorRing K]

omit [IsStrictOrderedRing K] in
theorem ticks_eq (v : View K) :
    ticks v = .ok
      (integers ⌈v.bounds.xMin⌉ ⌊v.bounds.xMax⌋, integers ⌈v.bounds.yMin⌉ ⌊v.bounds.yMax⌋) := by
  unfold ticks
  dsimp only
  rw [ceil?_eq, floor?_eq, ceil?_eq, floor?_eq]
  rfl

/-- Across the window, the integers between its bounds are those whose lines are in it. -/
theorem mem_across_iff {v : View K} (zoom : 0 < v.zoom) (i : ℤ) :
    i ∈ integers ⌈v.bounds.xMin⌉ ⌊v.bounds.xMax⌋ ↔
      0 ≤ v.origin.x + i * v.zoom ∧ v.origin.x + i * v.zoom ≤ v.width := by
  rw [mem_integers_iff, Int.ceil_le, Int.le_floor]
  simp only [View.bounds, View.toPlane, decimal_zero, div_le_iff₀ zoom, le_div_iff₀ zoom]
  constructor
  · rintro ⟨left, right⟩
    exact ⟨by linarith, by linarith⟩
  · rintro ⟨left, right⟩
    exact ⟨by linarith, by linarith⟩

/-- And so they are up and down, where the screen runs the other way. -/
theorem mem_upright_iff {v : View K} (zoom : 0 < v.zoom) (j : ℤ) :
    j ∈ integers ⌈v.bounds.yMin⌉ ⌊v.bounds.yMax⌋ ↔
      0 ≤ v.origin.y - j * v.zoom ∧ v.origin.y - j * v.zoom ≤ v.height := by
  rw [mem_integers_iff, Int.ceil_le, Int.le_floor]
  simp only [View.bounds, View.toPlane, decimal_zero, div_le_iff₀ zoom, le_div_iff₀ zoom]
  constructor
  · rintro ⟨bottom, top⟩
    exact ⟨by linarith, by linarith⟩
  · rintro ⟨top, bottom⟩
    exact ⟨by linarith, by linarith⟩

/-- The grid of a window has one upright line for each integer whose place across is in the window,
from left to right, then one level line for each integer whose place is, upwards, and no others. An
axis that crosses the window numbers those integers but zero beside their lines, and the numbers
of the level axis come first. -/
theorem grid_at_integers {v : View K} (zoom : 0 < v.zoom) :
    ∃ (xs ys : List ℤ) (ms : List (Mark K)), marks v = .ok ms ∧
      xs.Pairwise (· < ·) ∧
      (∀ i, i ∈ xs ↔ 0 ≤ v.origin.x + i * v.zoom ∧ v.origin.x + i * v.zoom ≤ v.width) ∧
      ys.Pairwise (· < ·) ∧
      (∀ j, j ∈ ys ↔ 0 ≤ v.origin.y - j * v.zoom ∧ v.origin.y - j * v.zoom ≤ v.height) ∧
      ms.filter (·.layer = .grid) =
        (xs.map fun i : ℤ => uprightLine v (v.origin.x + i * v.zoom)) ++
          ys.map (fun j : ℤ => levelLine v (v.origin.y - j * v.zoom)) ∧
      ms.filterMap Mark.number? =
        (if 0 ≤ v.origin.y ∧ v.origin.y ≤ v.height then
          (xs.filter (· ≠ 0)).map fun i : ℤ => (⟨v.origin.x + i * v.zoom, v.origin.y + 5⟩, i)
        else []) ++
        if 0 ≤ v.origin.x ∧ v.origin.x ≤ v.width then
          (ys.filter (· ≠ 0)).map fun j : ℤ => (⟨v.origin.x - 5, v.origin.y - j * v.zoom⟩, j)
        else [] := by
  have five : (5.0 : K) = 5 := by norm_num
  refine ⟨_, _, _, by rw [marks, ticks_eq]; rfl, integers_ascending _ _, mem_across_iff zoom,
    integers_ascending _ _, mem_upright_iff zoom, ?_, ?_⟩
  · rw [filter_grid, lines_eq]
    simp only [across_eq, upright_eq]
  · rw [filterMap_number?]
    simp only [showsX_iff, showsY_iff, across_eq, upright_eq, five]

end Exact

/-- In a window to the right of the upright axis, with grid lines on three of its edges and the level
axis along the lower one, the numbers start behind the axis and there are none beside it. -/
theorem grid_at_integers_of_edges : ∃ ms : List (Mark ℚ),
    marks (⟨70, 40, 20, ⟨-30, 40⟩, 20, 100⟩ : View ℚ) = .ok ms ∧
    ms.filter (·.layer = .grid) =
      [10, 30, 50, 70].map (uprightLine ⟨70, 40, 20, ⟨-30, 40⟩, 20, 100⟩) ++
        [40, 20, 0].map (levelLine ⟨70, 40, 20, ⟨-30, 40⟩, 20, 100⟩) ∧
    ms.filterMap Mark.number? = [(⟨10, 45⟩, 2), (⟨30, 45⟩, 3), (⟨50, 45⟩, 4), (⟨70, 45⟩, 5)] := by
  obtain ⟨xs, ys, ms, made, ascendX, memX, ascendY, memY, grid, numbers⟩ :=
    grid_at_integers (K := ℚ) (v := ⟨70, 40, 20, ⟨-30, 40⟩, 20, 100⟩) (by norm_num)
  have across : xs = [2, 3, 4, 5] := by
    refine ascendX.eq_of_mem_iff (by decide) fun i => (memX i).trans ?_
    show 0 ≤ (-30 + i * 20 : ℚ) ∧ (-30 + i * 20 : ℚ) ≤ 70 ↔ _
    norm_cast
    simp only [List.mem_cons, List.not_mem_nil, or_false]
    omega
  have upright : ys = [0, 1, 2] := by
    refine ascendY.eq_of_mem_iff (by decide) fun j => (memY j).trans ?_
    show 0 ≤ (40 - j * 20 : ℚ) ∧ (40 - j * 20 : ℚ) ≤ 40 ↔ _
    norm_cast
    simp only [List.mem_cons, List.not_mem_nil, or_false]
    omega
  subst across upright
  refine ⟨ms, made, grid.trans ?_, numbers.trans ?_⟩
  · norm_num
  · norm_num

end Grid
end HalfPlane
