/-
The windows of a board: they have an area, the usual range of zooms, and a zoom within
it, so the way from the screen to the plane never divides by zero.
-/
import HalfPlane.Proofs.Arithmetic

namespace HalfPlane
namespace View
open Scalar
variable {α : Type}

/-- A window as boards have them. -/
structure Usual [Scalar α] (v : View α) : Prop where
  area : ¬ (v.width ≤ 0.0 ∨ v.height ≤ 0.0)
  minZoom : v.minZoom = standardMinZoom
  maxZoom : v.maxZoom = standardMaxZoom
  zoom : ∃ z, v.zoom = v.clampZoom z

/-! ## Changing a window -/

namespace Usual
variable [Scalar α] {v : View α}

theorem pan (h : v.Usual) (dx dy : α) : (v.pan dx dy).Usual :=
  ⟨h.area, h.minZoom, h.maxZoom, h.zoom⟩

theorem setZoomAt (h : v.Usual) (zoom : α) (anchor : Pixel α) : (v.setZoomAt zoom anchor).Usual :=
  ⟨h.area, h.minZoom, h.maxZoom, zoom, rfl⟩

theorem zoomBy (h : v.Usual) (factor : α) (anchor : Option (Pixel α)) :
    (v.zoomBy factor anchor).Usual :=
  h.setZoomAt _ _

end Usual

/-! ## Making a window -/

theorem centred_empty [Coordinate α] {width height : α} (h : width ≤ 0.0 ∨ height ≤ 0.0)
    (zoom : α) :
    centred width height zoom =
      .error (.emptyViewport (shortestText width) (shortestText height)) := by
  simp only [centred, make, h, if_true]

variable [Coordinate α] [LawfulCoordinate α]
open LawfulCoordinate

theorem centred_usual {width height : α} (h : ¬ (width ≤ 0.0 ∨ height ≤ 0.0)) (zoom : α) :
    ∃ v : View α, centred width height zoom = .ok v ∧ v.Usual := by
  have range : (0.0 : α) < standardMinZoom ∧ (standardMinZoom : α) ≤ standardMaxZoom :=
    ⟨zero_lt_minZoom, minZoom_le_maxZoom⟩
  simp only [centred, make, h, range, if_false, and_self, if_true]
  exact ⟨_, rfl, h, rfl, rfl, zoom, rfl⟩

theorem usual_of_centred {width height zoom : α} {v : View α}
    (h : centred width height zoom = .ok v) : v.Usual := by
  by_cases empty : width ≤ 0.0 ∨ height ≤ 0.0
  · rw [centred_empty empty] at h
    cases h
  · obtain ⟨w, hw, usual⟩ := centred_usual empty zoom
    rw [hw] at h
    cases h
    exact usual

/-! ## Dividing by the zoom -/

namespace Usual
variable {v : View α}

/-- The zoom lies within the range, whatever it was brought into it from. -/
theorem zero_lt_zoom (h : v.Usual) : 0.0 < v.zoom := by
  obtain ⟨z, hz⟩ := h.zoom
  have lower : 0.0 < atLeast v.minZoom z := by
    unfold atLeast
    split
    · next above => rw [h.minZoom] at above; exact lt_of_lt_of_le zero_lt_minZoom (le_of_lt above)
    · rw [h.minZoom]; exact zero_lt_minZoom
  rw [hz]
  unfold clampZoom atMost
  split
  · exact lower
  · rw [h.maxZoom]; exact lt_of_lt_of_le zero_lt_minZoom minZoom_le_maxZoom

theorem isZero_zoom (h : v.Usual) : isZero v.zoom = false := isZero_of_pos h.zero_lt_zoom

end Usual
end View
end HalfPlane
