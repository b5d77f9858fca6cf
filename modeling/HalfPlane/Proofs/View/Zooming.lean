/-
What zooming and panning do to a window.

The zoom of a window is always some zoom brought into its range (`Clamped`), whatever was asked
for. If that was no number, it compared with nothing and the smallest zoom was taken. So the range
holds through every run of changes (`Clamped.within`). In exact arithmetic the zoom is then not
zero, so the plane and the screen are mapped onto each other, and a change of zoom moves the screen
about the anchor by the ratio of the two zooms (`toScreen_setZoomAt`).
-/
import Mathlib.Tactic.FieldSimp
import Mathlib.Tactic.Ring
import HalfPlane.Proofs.Board.Reachable
import HalfPlane.Proofs.Exact
import HalfPlane.Proofs.Form.PlainNumber

namespace HalfPlane
open Scalar

/-- A pixel moved away from an anchor by a factor. -/
def Pixel.scaledFrom {α : Type} [Scalar α] (s anchor : Pixel α) (factor : α) : Pixel α :=
  ⟨anchor.x + factor * (s.x - anchor.x), anchor.y + factor * (s.y - anchor.y)⟩

namespace View

/-! ## Changes -/

/-- The changes of a window. -/
inductive Change (α : Type) where
  | setZoom (zoom : α) (anchor : Option (Pixel α))
  | zoomBy (factor : α) (anchor : Option (Pixel α))
  | pan (dx dy : α)

section Any
variable {α : Type} [Scalar α]

def changed (v : View α) : Change α → View α
  | .setZoom zoom anchor => v.setZoom zoom anchor
  | .zoomBy factor anchor => v.zoomBy factor anchor
  | .pan dx dy => v.pan dx dy

def changedAll (v : View α) (changes : List (Change α)) : View α := changes.foldl changed v

/-- A window with this range of zooms, whose zoom was brought into it. -/
structure Clamped (v : View α) (minZoom maxZoom : α) : Prop where
  minZoom : v.minZoom = minZoom
  maxZoom : v.maxZoom = maxZoom
  zoom : ∃ z, v.zoom = v.clampZoom z

theorem Usual.clamped {v : View α} (h : v.Usual) : v.Clamped standardMinZoom standardMaxZoom :=
  ⟨h.minZoom, h.maxZoom, h.zoom⟩

theorem make_ok_iff [Exact α] {width height zoom : α} {origin : Pixel α} {minZoom maxZoom : α}
    {v : View α} :
    make width height zoom origin minZoom maxZoom = .ok v ↔
      ¬ (width ≤ 0.0 ∨ height ≤ 0.0) ∧ (0.0 < minZoom ∧ minZoom ≤ maxZoom) ∧
        v = ⟨width, height, atMost maxZoom (atLeast minZoom zoom), origin, minZoom, maxZoom⟩ := by
  unfold make
  split
  · next empty => simp [empty]
  · next area =>
    split
    · next range => simp [area, range, clampZoom, eq_comm]
    · next noRange => simp [noRange]

namespace Clamped
variable {v : View α} {minZoom maxZoom : α}

theorem of_make [Exact α] {width height zoom : α} {origin : Pixel α}
    (h : make width height zoom origin minZoom maxZoom = .ok v) : v.Clamped minZoom maxZoom := by
  obtain ⟨-, -, rfl⟩ := make_ok_iff.1 h
  exact ⟨rfl, rfl, zoom, rfl⟩

theorem changed (h : v.Clamped minZoom maxZoom) (change : Change α) :
    (v.changed change).Clamped minZoom maxZoom := by
  cases change with
  | setZoom zoom anchor => exact ⟨h.minZoom, h.maxZoom, zoom, rfl⟩
  | zoomBy factor anchor => exact ⟨h.minZoom, h.maxZoom, v.zoom * factor, rfl⟩
  | pan dx dy => exact ⟨h.minZoom, h.maxZoom, h.zoom⟩

theorem changedAll (h : v.Clamped minZoom maxZoom) (changes : List (Change α)) :
    (v.changedAll changes).Clamped minZoom maxZoom := by
  induction changes generalizing v with
  | nil => exact h
  | cons change changes ih => exact ih (h.changed change)

end Clamped
end Any

/-! ## The range -/

section Range
variable {α : Type} [Coordinate α] [LawfulCoordinate α]
open LawfulCoordinate

/-- Between two numbers whatever is brought into the range is within it, a number or not. -/
theorem Clamped.within {v : View α} {minZoom maxZoom : α} (h : v.Clamped minZoom maxZoom)
    (positive : 0.0 < minZoom) (range : minZoom ≤ maxZoom) :
    minZoom ≤ v.zoom ∧ v.zoom ≤ maxZoom := by
  have low : minZoom ≤ minZoom := (le_self_of_lt positive).2
  have high : maxZoom ≤ maxZoom := (le_self_of_lt (lt_of_lt_of_le positive range)).2
  obtain ⟨z, hz⟩ := h.zoom
  rw [hz, clampZoom, h.minZoom, h.maxZoom]
  have above : minZoom ≤ atLeast minZoom z := by
    unfold atLeast
    split
    · next h => exact le_of_lt h
    · exact low
  unfold atMost
  split
  · next below => exact ⟨above, le_of_lt below⟩
  · exact ⟨range, high⟩

end Range

/-! ## Exact windows -/

section Exact
variable {K : Type} [Field K] [LinearOrder K]

theorem clampZoom_eq (v : View K) (zoom : K) :
    v.clampZoom zoom = min v.maxZoom (max v.minZoom zoom) := by
  rw [clampZoom, atLeast_eq, atMost_eq]

theorem Clamped.zoom_pos {v : View K} {minZoom maxZoom : K} (h : v.Clamped minZoom maxZoom)
    (positive : 0 < minZoom) (range : minZoom ≤ maxZoom) : 0 < v.zoom := by
  obtain ⟨z, hz⟩ := h.zoom
  rw [hz, clampZoom_eq, h.minZoom, h.maxZoom]
  exact lt_min (positive.trans_le range) (positive.trans_le (le_max_left _ _))

/-! ### The plane and the screen -/

variable {v : View K}

theorem toPlane_toScreen (h : v.zoom ≠ 0) (p : Point K) : v.toPlane (v.toScreen p) = p := by
  have x : (v.origin.x + p.x * v.zoom - v.origin.x) / v.zoom = p.x := by
    rw [add_sub_cancel_left, mul_div_cancel_right₀ _ h]
  have y : (v.origin.y - (v.origin.y - p.y * v.zoom)) / v.zoom = p.y := by
    rw [sub_sub_cancel, mul_div_cancel_right₀ _ h]
  simp only [toPlane, toScreen, x, y]

theorem toScreen_toPlane (h : v.zoom ≠ 0) (s : Pixel K) : v.toScreen (v.toPlane s) = s := by
  have x : v.origin.x + (s.x - v.origin.x) / v.zoom * v.zoom = s.x := by
    rw [div_mul_cancel₀ _ h, add_sub_cancel]
  have y : v.origin.y - (v.origin.y - s.y) / v.zoom * v.zoom = s.y := by
    rw [div_mul_cancel₀ _ h, sub_sub_cancel]
  simp only [toPlane, toScreen, x, y]

/-- A change of zoom moves what is seen away from the anchor, by the ratio of the zooms. -/
theorem toScreen_setZoomAt (h : v.zoom ≠ 0) (zoom : K) (anchor : Pixel K) (p : Point K) :
    (v.setZoomAt zoom anchor).toScreen p =
      (v.toScreen p).scaledFrom anchor (v.clampZoom zoom / v.zoom) := by
  simp only [toScreen, setZoomAt, toPlane, Pixel.scaledFrom, Pixel.mk.injEq]
  constructor
  · field_simp
    ring
  · field_simp
    ring

theorem scaledFrom_self (s : Pixel K) (factor : K) : s.scaledFrom s factor = s := by
  simp only [Pixel.scaledFrom, sub_self, mul_zero, add_zero]

/-- So the point under the anchor stays there. -/
theorem toPlane_setZoomAt (h : v.zoom ≠ 0) {zoom : K} (h' : v.clampZoom zoom ≠ 0)
    (anchor : Pixel K) : (v.setZoomAt zoom anchor).toPlane anchor = v.toPlane anchor := by
  have seen : (v.setZoomAt zoom anchor).toScreen (v.toPlane anchor) = anchor := by
    rw [toScreen_setZoomAt h, toScreen_toPlane h, scaledFrom_self]
  have back := toPlane_toScreen (v := v.setZoomAt zoom anchor) h' (v.toPlane anchor)
  rw [seen] at back
  exact back

end Exact

/-! ## Any run of changes -/

/-- What holds of a window in exact arithmetic: the screen and the plane are mapped onto each
other, and a change of zoom is a scaling from its anchor, which is the middle of the window if none
is given, by the ratio of the zoom brought into the range to the zoom before. -/
structure Faithful {K : Type} [Field K] [LinearOrder K] (v : View K) : Prop where
  toPlane_toScreen : ∀ p, v.toPlane (v.toScreen p) = p
  toScreen_toPlane : ∀ s, v.toScreen (v.toPlane s) = s
  setZoom_zoom : ∀ zoom anchor, (v.setZoom zoom anchor).zoom = min v.maxZoom (max v.minZoom zoom)
  setZoom_toScreen : ∀ zoom anchor p, (v.setZoom zoom anchor).toScreen p =
    (v.toScreen p).scaledFrom (anchor.getD ⟨v.width / 2, v.height / 2⟩)
      (min v.maxZoom (max v.minZoom zoom) / v.zoom)
  setZoom_toPlane : ∀ zoom anchor,
    (v.setZoom zoom anchor).toPlane (anchor.getD ⟨v.width / 2, v.height / 2⟩) =
      v.toPlane (anchor.getD ⟨v.width / 2, v.height / 2⟩)

theorem Clamped.faithful {K : Type} [Field K] [LinearOrder K] [IsStrictOrderedRing K] {v : View K}
    {minZoom maxZoom : K} (h : v.Clamped minZoom maxZoom) (positive : 0 < minZoom)
    (range : minZoom ≤ maxZoom) : v.Faithful := by
  have zoom : v.zoom ≠ 0 := (h.zoom_pos positive range).ne'
  have centre : v.centre = ⟨v.width / 2, v.height / 2⟩ := by
    have two : (2.0 : K) = 2 := by norm_num
    rw [View.centre, two]
  refine ⟨View.toPlane_toScreen zoom, View.toScreen_toPlane zoom, fun z anchor => ?_,
    fun z anchor p => ?_, fun z anchor => ?_⟩
  · exact clampZoom_eq v z
  · rw [setZoom, toScreen_setZoomAt zoom, clampZoom_eq, centre]
  · have changed := h.changed (.setZoom z anchor)
    rw [setZoom, centre]
    exact toPlane_setZoomAt zoom (changed.zoom_pos positive range).ne' _

/-- Through every run of changes the zoom of a window stays within its range, and so the zoom of a
board within that of boards. In exact arithmetic the window stays faithful. -/
theorem zooms_within_range :
    (∀ {width height zoom minZoom maxZoom : Float} {origin : Pixel Float} {v : View Float},
      make width height zoom origin minZoom maxZoom = .ok v → ∀ changes : List (Change Float),
        (v.changedAll changes).minZoom = minZoom ∧ (v.changedAll changes).maxZoom = maxZoom ∧
          minZoom ≤ (v.changedAll changes).zoom ∧ (v.changedAll changes).zoom ≤ maxZoom) ∧
    (∀ {b : Board Float}, b.Reachable → 20.0 ≤ b.view.zoom ∧ b.view.zoom ≤ 100.0) ∧
    ∀ {K : Type} [Field K] [LinearOrder K] [IsStrictOrderedRing K] [Exact K]
      {width height zoom minZoom maxZoom : K} {origin : Pixel K} {v : View K},
      make width height zoom origin minZoom maxZoom = .ok v → ∀ changes : List (Change K),
        (v.changedAll changes).Faithful := by
  refine ⟨fun made changes => ?_, fun reachable => ?_, ?_⟩
  · obtain ⟨-, ⟨positive, range⟩, -⟩ := make_ok_iff.1 made
    have clamped := (Clamped.of_make made).changedAll changes
    exact ⟨clamped.minZoom, clamped.maxZoom, clamped.within positive range⟩
  · exact reachable.sound.usual.clamped.within LawfulCoordinate.zero_lt_minZoom
      LawfulCoordinate.minZoom_le_maxZoom
  · intro K _ _ _ _ width height zoom minZoom maxZoom origin v made changes
    obtain ⟨-, ⟨positive, range⟩, -⟩ := make_ok_iff.1 made
    rw [decimal_zero] at positive
    exact ((Clamped.of_make made).changedAll changes).faithful positive range

/-- A window made with a zoom that is no number, zoomed without bound, moved away and zoomed about
an anchor that is not on the screen; and an exact one whose zoom is cut off at the largest. -/
theorem zooms_within_range_of_nan :
    (∃ v : View Float, make 600.0 400.0 (0.0 / 0.0) ⟨300.0, 200.0⟩ 20.0 100.0 = .ok v ∧
      20.0 ≤ (v.changedAll [.zoomBy (1.0 / 0.0) none, .pan (1.0 / 0.0) 0.0,
        .setZoom (0.0 / 0.0) (some ⟨0.0 / 0.0, 7.0⟩)]).zoom) ∧
    (∃ b : Board Float, b.Reachable ∧ b.selected = some 0 ∧ b.view.zoom ≤ 100.0) ∧
    ∃ w : View ℚ, make 6 4 3 ⟨3, 2⟩ 1 8 = .ok w ∧
      ((w.changedAll [.pan 1 5, .zoomBy (1 / 2) none]).setZoom 50 (some ⟨1, 1⟩)).toPlane ⟨1, 1⟩ =
        (w.changedAll [.pan 1 5, .zoomBy (1 / 2) none]).toPlane ⟨1, 1⟩ := by
  obtain ⟨rounded, boards, exact⟩ := zooms_within_range
  refine ⟨?_, ?_, ?_⟩
  · have made : ∃ v : View Float,
        make 600.0 400.0 (0.0 / 0.0) ⟨300.0, 200.0⟩ 20.0 100.0 = .ok v :=
      ⟨_, make_ok_iff.2 ⟨by decide +kernel, by decide +kernel, rfl⟩⟩
    obtain ⟨v, made⟩ := made
    exact ⟨v, made, (rounded made _).2.2.1⟩
  · obtain ⟨b, reachable, -, selected, -⟩ := Board.exists_selected
    exact ⟨b, reachable, selected, (boards reachable).2⟩
  · have made : ∃ w : View ℚ, make 6 4 3 ⟨3, 2⟩ 1 8 = .ok w :=
      ⟨_, make_ok_iff.2 ⟨by norm_num, by norm_num, rfl⟩⟩
    obtain ⟨w, made⟩ := made
    exact ⟨w, made, (exact made _).setZoom_toPlane 50 (some ⟨1, 1⟩)⟩

end View
end HalfPlane
