/-
When at most one corner is active, and that one is selected.

Marking keeps it so. Working out the corners again need not: a corner takes over the
status of the first old one near it, and being near is not transitive, so two new
corners can lie on either side of an old one, near it and not near each other. If that
one was active both are (`twins` is such a session). Nothing else breaks it: in a session
it holds all along exactly when no active corner is split (`oneActive_iff_of_made`).
-/
import HalfPlane.Proofs.Board.Reachable

namespace HalfPlane
variable {α : Type}

/-! ## Corners apart -/

theorem Corner.Apart.not_near [Coordinate α] [LawfulCoordinate α] {corners : List (Corner α)}
    (h : Corner.Apart corners) {i j : Nat} {c d : Corner α} (ne : i ≠ j)
    (hc : corners[i]? = some c) (hd : corners[j]? = some d) : c.point.near d.point = false := by
  obtain ⟨hi, rfl⟩ := List.getElem?_eq_some_iff.1 hc
  obtain ⟨hj, rfl⟩ := List.getElem?_eq_some_iff.1 hd
  rcases Nat.lt_or_gt_of_ne ne with before | after
  · rw [Point.near_comm]
    exact List.pairwise_iff_getElem.1 h i j hi hj before
  · exact List.pairwise_iff_getElem.1 h j i hj hi after

theorem getElem?_map_corner {vertices : List (Vertex α)} {i : Nat} {v : Vertex α}
    (h : vertices[i]? = some v) : (vertices.map Vertex.corner)[i]? = some v.corner := by
  rw [List.getElem?_map, h]
  rfl

theorem exists_of_map_corner {vertices vertices' : List (Vertex α)}
    (stay : vertices'.map Vertex.corner = vertices.map Vertex.corner) {i : Nat} {v : Vertex α}
    (h : vertices'[i]? = some v) : ∃ w, vertices[i]? = some w ∧ w.point = v.point := by
  have at' := getElem?_map_corner h
  rw [stay, List.getElem?_map, Option.map_eq_some_iff] at at'
  obtain ⟨w, hw, same⟩ := at'
  exact ⟨w, hw, congrArg Corner.point same⟩

namespace Core

/-- Two corners afterwards continue one that was active. -/
def Splits [Scalar α] (c d : Core α) : Prop :=
  ∃ (i j : Nat) (v w old : Vertex α) (s : Nat), i ≠ j ∧ d.vertices[i]? = some v ∧
    d.vertices[j]? = some w ∧ old.status = .active ∧
    Board.continued c.vertices v.point = some (old, s) ∧
    Board.continued c.vertices w.point = some (old, s)

variable [Coordinate α] {c d : Core α}

theorem Coherent.not_near [LawfulCoordinate α] (h : c.Coherent) {i j : Nat} {v w : Vertex α}
    (ne : i ≠ j) (hv : c.vertices[i]? = some v) (hw : c.vertices[j]? = some w) :
    v.point.near w.point = false :=
  (Corner.ofInequalities_apart h.corners).not_near ne (getElem?_map_corner hv)
    (getElem?_map_corner hw)

/-- A corner that has not moved continues at most itself. -/
theorem Coherent.index_of_continued [LawfulCoordinate α] (h : c.Coherent) {i s : Nat}
    {v old w : Vertex α} (hw : c.vertices[i]? = some w) (same : w.point = v.point)
    (hv : Board.continued c.vertices v.point = some (old, s)) : i = s := by
  obtain ⟨hs, near⟩ := Board.continued_some hv
  rw [← same] at near
  by_cases ne : s = i
  · exact ne.symm
  · rw [h.not_near ne hs hw] at near
    cases near

theorem Coherent.not_splits [LawfulCoordinate α] (h : c.Coherent)
    (stay : d.vertices.map Vertex.corner = c.vertices.map Vertex.corner) : ¬ Splits c d := by
  rintro ⟨i, j, v, w, old, s, ne, hv, hw, -, fromV, fromW⟩
  obtain ⟨x, hx, sameV⟩ := exists_of_map_corner stay hv
  obtain ⟨y, hy, sameW⟩ := exists_of_map_corner stay hw
  exact ne ((h.index_of_continued hx sameV fromV).trans (h.index_of_continued hy sameW fromW).symm)

/-! ## One step -/

/-- Corners worked out again are active one at a time unless they split one. -/
theorem activeSelected_withCorners_iff (one : ActiveSelected c.vertices c.selected)
    (same : d.vertices = c.vertices) (selected : d.selected = c.selected)
    (corners : List (Corner α)) :
    ActiveSelected (d.withCorners corners).vertices (d.withCorners corners).selected ↔
      ¬ Splits c (d.withCorners corners) := by
  have vertices : (d.withCorners corners).vertices = refreshedVertices c.vertices corners := by
    rw [← same]; rfl
  have selection : (d.withCorners corners).selected =
      Board.selectionOf c.vertices c.selected corners := by
    rw [← same, ← selected]; rfl
  unfold Splits
  rw [vertices, selection]
  constructor
  · rintro one' ⟨i, j, v, w, old, s, ne, hv, hw, active, fromV, fromW⟩
    have selects : ∀ {k u}, (refreshedVertices c.vertices corners)[k]? = some u →
        Board.continued c.vertices u.point = some (old, s) →
        Board.selectionOf c.vertices c.selected corners = some k := by
      intro k u hu fromU
      obtain ⟨corner, -, rfl⟩ := getElem?_refreshed hu
      exact one' k _ hu ((status_vertexOf fromU).trans active)
    have hi := selects hv fromV
    rw [selects hw fromW] at hi
    exact ne (Option.some.inj hi).symm
  · intro whole i v hv active
    obtain ⟨corner, hc, rfl⟩ := getElem?_refreshed hv
    obtain ⟨old, s, fromOld, status⟩ := continued_of_status (by rw [active]; simp)
    rw [active] at status
    -- The old corner was active, so it was the selected one, and some corner is again.
    have hs : c.selected = some s := one s old (Board.continued_some fromOld).1 status
    rw [hs]
    obtain ⟨j, hj⟩ := selectionOf_isSome hc fromOld
    obtain ⟨s', corner', old', hs', hc', fromOld'⟩ := continued_of_selectionOf hj
    cases hs'
    have sameOld : old' = old := Option.some.inj
      ((Board.continued_some fromOld').1.symm.trans (Board.continued_some fromOld).1)
    by_cases ne : i = j
    · rw [hj, ne]
    · rw [sameOld] at fromOld'
      have hw := refreshed_getElem? c.vertices hc'
      exact absurd ⟨i, j, _, _, old, s, ne, hv, hw, status, fromOld, fromOld'⟩ whole

/-- A step keeps at most one corner active, and that one selected, unless it splits the
active one. -/
theorem Coherent.activeSelected_iff [LawfulCoordinate α] (coherent : c.Coherent)
    (one : ActiveSelected c.vertices c.selected) (step : Step c d) :
    ActiveSelected d.vertices d.selected ↔ ¬ Splits c d := by
  cases step with
  | idle => exact iff_of_true one (coherent.not_splits rfl)
  | label => exact iff_of_true one (coherent.not_splits rfl)
  | hover => exact iff_of_true one (coherent.not_splits rfl)
  | mark marking =>
    exact iff_of_true (marking.activeSelected one) (coherent.not_splits marking.map_corner)
  | recast recast =>
    exact activeSelected_withCorners_iff one recast.marks_eq.1 recast.marks_eq.2 _
  | clear =>
    refine iff_of_true (fun i v hv => ?_) ?_
    · cases hv
    · rintro ⟨i, j, v, w, old, s, -, hv, -⟩
      cases hv

end Core

/-! ## Sessions -/

namespace Board

/-- At most one corner is active, and if one is, it is the selected one. -/
def OneActive (b : Board α) : Prop := ActiveSelected b.vertices b.selected

/-- Two corners of the board afterwards continue one that was active. -/
def Splits [Scalar α] (b b' : Board α) : Prop := Core.Splits b.core b'.core

section
variable [Coordinate α]

theorem afterAll_take_succ {b : Board α} {actions : List (Action α)} {n : Nat} {a : Action α}
    (h : actions[n]? = some a) :
    b.afterAll (actions.take (n + 1)) = (b.afterAll (actions.take n)).after a := by
  unfold afterAll
  rw [List.take_add_one, h, List.foldl_append]
  rfl

theorem OneActive.after_iff [LawfulCoordinate α] {b : Board α} (one : b.OneActive)
    (sound : b.Sound) (a : Action α) : (b.after a).OneActive ↔ ¬ b.Splits (b.after a) :=
  sound.coherent.activeSelected_iff one (after_change sound a).step

end

/-- In a session at most one corner is active, and that one selected, all along exactly
when no action splits the active corner. -/
theorem oneActive_iff_of_made {width height zoom : Float} {palette : List String} {delay : Int}
    {b : Board Float} (made : Board.make width height zoom palette delay = .ok b)
    (actions : List (Action Float)) :
    (∀ n, (b.afterAll (actions.take n)).OneActive) ↔
      ∀ n a, actions[n]? = some a →
        ¬ (b.afterAll (actions.take n)).Splits ((b.afterAll (actions.take n)).after a) := by
  have sound : ∀ n, (b.afterAll (actions.take n)).Sound := fun n =>
    ((Reachable.made made).afterAll _).sound
  constructor
  · intro one n a ha
    refine ((one n).after_iff (sound n) a).1 ?_
    rw [← afterAll_take_succ ha]
    exact one (n + 1)
  · intro whole n
    induction n with
    | zero =>
      intro i v hv
      have empty : b.vertices = [] := by
        obtain ⟨_, -, h⟩ := bind_ok_iff.1 made
        obtain ⟨_, -, h⟩ := bind_ok_iff.1 h
        obtain ⟨_, -, h⟩ := bind_ok_iff.1 h
        cases h
        rfl
      rw [List.take_zero] at hv
      rw [show (b.afterAll []).vertices = [] from empty] at hv
      cases hv
    | succ n ih =>
      cases ha : actions[n]? with
      | some a =>
        rw [afterAll_take_succ ha]
        exact (ih.after_iff (sound n) a).2 (whole n a ha)
      | none =>
        have past := List.getElem?_eq_none_iff.1 ha
        rw [List.take_of_length_le past] at ih
        rw [List.take_of_length_le (by omega)]
        exact ih

/-! ## A corner that splits -/

/-- A session in which the lines of the first two claims meet in a corner, which is
selected, and the claim on a third line close by cuts it off: the corners where the third
line crosses the others both lie near the old one. -/
def twins : List (Action Float) :=
  [.add "y >= 0", .add "1000x - 1000y + 0.0000009 >= 0", .add "-1000x - 1000y + 0.0000009 >= 0",
    .chooseRegion "d2" (some "regionA"), .chooseRegion "d3" (some "regionA"), .select 0,
    .chooseRegion "d1" (some "regionB")]

theorem exists_twins : ∃ b : Board Float,
    Board.make 600.0 600.0 40.0 Register.standardPalette 300 = .ok b ∧
      (b.afterAll twins).vertices.map (·.status) = [.active, .active] := by
  obtain ⟨b, made, run⟩ := exists_made (p := fun b =>
    (b.afterAll twins).vertices.map (·.status) == [.active, .active]) (by decide +kernel)
  exact ⟨b, made, eq_of_beq run⟩

theorem not_oneActive_of_statuses {b : Board α}
    (h : b.vertices.map (·.status) = [.active, .active]) : ¬ b.OneActive := by
  intro one
  have active : ∀ {i}, (b.vertices.map (·.status))[i]? = some .active → b.selected = some i := by
    intro i hi
    rw [List.getElem?_map, Option.map_eq_some_iff] at hi
    obtain ⟨v, hv, status⟩ := hi
    exact one i v hv status
  have first : b.selected = some 0 := active (by rw [h]; rfl)
  have second : b.selected = some 1 := active (by rw [h]; rfl)
  rw [first] at second
  cases second

/-- So a board can have two active corners. -/
theorem not_always_oneActive : ¬ ∀ b : Board Float, b.Reachable → b.OneActive := by
  intro always
  obtain ⟨b, made, statuses⟩ := exists_twins
  exact not_oneActive_of_statuses statuses (always _ ((Reachable.made made).afterAll twins))

theorem twins_splits : ∃ b : Board Float,
    Board.make 600.0 600.0 40.0 Register.standardPalette 300 = .ok b ∧
      ¬ ∀ n a, twins[n]? = some a →
        ¬ (b.afterAll (twins.take n)).Splits ((b.afterAll (twins.take n)).after a) := by
  obtain ⟨b, made, statuses⟩ := exists_twins
  refine ⟨b, made, fun whole => ?_⟩
  have one := (oneActive_iff_of_made made twins).2 whole twins.length
  rw [List.take_length] at one
  exact not_oneActive_of_statuses statuses one

end Board
end HalfPlane
