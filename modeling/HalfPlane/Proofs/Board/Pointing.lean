/-
What a pointer, a wheel and fingers do to a board.

A click selects a corner that is there or claims a side of an inequality that has one, so
it is never refused: a box belongs to an unsolved inequality, which is no equation, and
its label is no other's. Dragging and zooming change only the window.
-/
import HalfPlane.Proofs.Board.Changes

namespace HalfPlane
variable {α : Type}

theorem Side.ofName_name (side : Side) : Side.ofName (some side.name) = .ok side := by
  cases side <;> rfl

/-- With labels that are all different, the one asked for is the one found. -/
theorem find?_label {qs : List (Inequality α)} {q : Inequality α}
    (different : (qs.map (·.label)).Nodup) (h : q ∈ qs) :
    qs.find? (fun r => r.label == q.label) = some q := by
  induction qs with
  | nil => cases h
  | cons r qs ih =>
    rw [List.map_cons, List.nodup_cons] at different
    rcases List.mem_cons.1 h with rfl | h
    · exact List.find?_cons_of_pos (by simp)
    · have other : r.label ≠ q.label := fun same =>
        different.1 (by rw [same]; exact List.mem_map_of_mem h)
      rw [List.find?_cons_of_neg (by simpa using other)]
      exact ih different.2 h

theorem Control.mem_of_at? [Scalar α] {controls : List (Control α)} {s : Pixel α} {c : Control α}
    (h : Control.at? controls s = some c) : c ∈ controls :=
  List.mem_reverse.1 (List.mem_of_find?_eq_some h)

theorem Control.contains_of_at? [Scalar α] {controls : List (Control α)} {s : Pixel α}
    {c : Control α} (h : Control.at? controls s = some c) : c.contains s = true := by
  unfold Control.at? at h
  have found := List.find?_some h
  exact found

namespace Board
variable [Coordinate α] {b : Board α}

theorem Completes.map {β γ : Type} {o : Outcome α β} (h : Completes b o) (f : β → γ) :
    Completes b (o.1.map f, o.2) := by
  obtain ⟨⟨r, hr⟩, change⟩ := h
  refine ⟨?_, change⟩
  rw [hr]
  exact .ok (f r)

namespace Sound

theorem labels_nodup (h : b.Sound) : b.core.labels.Nodup :=
  h.coherent.labels.nodup b.register.given_nodup

theorem find?_of_mem (h : b.Sound) {q : Inequality α} (hq : q ∈ b.inequalities) :
    b.find? q.label = some q :=
  find?_label h.labels_nodup hq

theorem activeVertex_of_selected (h : b.Sound) {i : Nat} (hi : b.selected = some i) :
    ∃ v, b.vertices[i]? = some v ∧ b.activeVertex = some v := by
  obtain ⟨v, hv, -⟩ := h.coherent.selected i hi
  refine ⟨v, hv, ?_⟩
  unfold activeVertex
  rw [hi]
  exact hv

end Sound

/-! ## Clicks and hovering -/

theorem missed_change (sound : b.Sound) : Change b b.missed := by
  cases hi : b.selected with
  | none =>
    have same : b.missed.core = b.core := by simp only [missed, hi, core]
    refine ⟨same ▸ .idle, ?_, ?_⟩ <;> simp only [missed, hi] <;> exact id
  | some i =>
    obtain ⟨v, hv, active⟩ := sound.activeVertex_of_selected hi
    simp only [missed, hi, active]
    exact deselect_change hv (.inl hi)

theorem click_completes (sound : b.Sound) (s : Pixel α) : Completes b (b.click s) := by
  unfold click
  split
  · next i hi =>
    obtain ⟨v, hv⟩ := Vertex.lt_of_at? hi
    have inside : i < b.vertices.length := (List.getElem?_eq_some_iff.1 hv).1
    exact (select_completes (by omega)).map some
  · obtain ⟨controls, hc⟩ := Control.ofInequalities_succeeds b.view sound.lines
    rw [hc]
    dsimp only
    split
    · exact ⟨.ok _, missed_change sound⟩
    · next c hit =>
      obtain ⟨q, hq, label, unsolved⟩ := Control.label_of_mem hc (Control.mem_of_at? hit)
      have region : q.form.operator ≠ .eq := by
        intro equation
        rw [(sound.coherent.equations q hq).2 equation] at unsolved
        cases unsolved
      have found := sound.find?_of_mem hq
      rw [label] at found
      exact (chooseRegion_completes sound found region (Side.ofName_name c.side)).map some

theorem label_of_lineDistances {s : Pixel α} {c : α × String} (h : c ∈ b.lineDistances s) :
    c.2 ∈ b.core.labels := by
  obtain ⟨q, hq, h⟩ := List.mem_filterMap.1 h
  obtain ⟨d, -, rfl⟩ := Option.map_eq_some_iff.1 h
  exact List.mem_map_of_mem hq

theorem hover_change (s : Pixel α) : Change b (b.hover s).2 := by
  refine ⟨.hover fun l hl => ?_, id, id⟩
  obtain ⟨c, hc, rfl⟩ := Option.map_eq_some_iff.1 hl
  exact label_of_lineDistances (mem_of_closest? hc)

/-! ## A pointer -/

theorem drag_core (s : Pixel α) : (b.drag s).core = b.core ∧ (b.drag s).register = b.register ∧
    (b.view.Usual → (b.drag s).view.Usual) := by
  unfold drag
  split
  · refine ⟨rfl, rfl, fun h => ?_⟩
    dsimp only
    split
    · exact h.pan _ _
    · exact h
  · exact ⟨rfl, rfl, id⟩

theorem pointerMove_change (s : Pixel α) : Change b (b.pointerMove s).2 := by
  obtain ⟨core, register, view⟩ := b.drag_core s
  exact .after_same core (register ▸ id) view (hover_change s)

theorem pointerUp_completes (sound : b.Sound) (s : Pixel α) : Completes b (b.pointerUp s) := by
  unfold pointerUp
  dsimp only
  split
  · have released : Sound
        { b with pointer := { b.pointer with press := none, last := none, dragging := false } } :=
      ⟨sound.coherent, sound.honest, sound.usual⟩
    have clicked := click_completes released s
    exact ⟨clicked.succeeds, clicked.change.step, clicked.change.register, clicked.change.view⟩
  · exact ⟨.ok _, .idle, id, id⟩

/-! ## A wheel and fingers -/

theorem wheel_change (delta : α) (s : Option (Pixel α)) : Change b (b.wheel delta s) := by
  unfold wheel
  split
  · exact .refl
  · exact ⟨.idle, id, fun h => h.zoomBy _ _⟩

theorem touchStart_change (touches : List (Pixel α)) : Change b (b.touchStart touches) := by
  unfold touchStart
  split <;> exact ⟨.idle, id, id⟩

theorem pinchTo_change (pinch : Pinch α) (s t : Pixel α) : Change b (b.pinchTo pinch s t) := by
  unfold pinchTo
  split
  · exact .refl
  · exact ⟨.idle, id, fun h => h.setZoomAt _ _⟩

theorem touchMove_change (touches : List (Pixel α)) : Change b (b.touchMove touches) := by
  unfold touchMove
  split
  · exact pinchTo_change _ _ _
  · exact pointerMove_change _
  · exact .refl

theorem touchEnd_completes (sound : b.Sound) (touches : List (Pixel α)) :
    Completes b (b.touchEnd touches) := by
  unfold touchEnd
  split
  · refine ⟨.ok _, ?_⟩
    dsimp only
    split
    · exact ⟨.idle, id, id⟩
    · exact .refl
  · split
    · exact ⟨.ok _, .refl⟩
    · exact pointerUp_completes sound _

end Board
end HalfPlane
