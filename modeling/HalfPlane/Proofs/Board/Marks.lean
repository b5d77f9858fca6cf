/-
How corners are marked, and what a corner keeps when the corners are worked out again.

`Marking` is every change of statuses that leaves the corners alone: letting go of one,
showing a solved one, making one active, and grading. `continued` ties the corners worked
out again to the ones before; it is the first old corner near the new one that counts,
and several new ones may continue the same.
-/
import HalfPlane.Board.Naming

namespace HalfPlane
variable {α : Type}

/-! ## Corners without their status -/

def Vertex.corner (v : Vertex α) : Corner α := ⟨v.point, v.lines⟩

/-- A vertex that nothing has been said about. -/
def Vertex.bare (v : Vertex α) : Vertex α := { v with status := .unsolved }

def marked (vertices : List (Vertex α)) (i : Nat) (status : Status) : List (Vertex α) :=
  vertices.modify i fun v => { v with status }

theorem getElem?_marked (vertices : List (Vertex α)) (i j : Nat) (status : Status) :
    (marked vertices i status)[j]? =
      if i = j then vertices[j]?.map fun v => { v with status } else vertices[j]? := by
  unfold marked
  rw [List.getElem?_modify]
  split <;> cases vertices[j]? <;> rfl

theorem map_bare_marked (vertices : List (Vertex α)) (i : Nat) (status : Status) :
    (marked vertices i status).map Vertex.bare = vertices.map Vertex.bare := by
  refine List.ext_getElem? fun j => ?_
  rw [List.getElem?_map, List.getElem?_map, getElem?_marked]
  split <;> cases vertices[j]? <;> rfl

theorem getElem?_calmed (vertices : List (Vertex α)) (j : Nat) :
    (Board.calmed vertices)[j]? =
      vertices[j]?.map fun v => if v.status = .active then { v with status := .unsolved } else v := by
  unfold Board.calmed
  rw [List.getElem?_map]

theorem map_bare_calmed (vertices : List (Vertex α)) :
    (Board.calmed vertices).map Vertex.bare = vertices.map Vertex.bare := by
  refine List.ext_getElem? fun j => ?_
  rw [List.getElem?_map, List.getElem?_map, getElem?_calmed]
  cases vertices[j]? with
  | none => rfl
  | some v => simp only [Option.map_some]; split <;> rfl

theorem status_of_calmed {vertices : List (Vertex α)} {j : Nat} {v : Vertex α}
    (h : (Board.calmed vertices)[j]? = some v) : v.status ≠ .active := by
  rw [getElem?_calmed, Option.map_eq_some_iff] at h
  obtain ⟨w, -, rfl⟩ := h
  split
  · simp
  · assumption

/-- Where nothing but statuses differs, each corner has a counterpart at its place. -/
theorem exists_of_map_bare {vertices vertices' : List (Vertex α)}
    (same : vertices'.map Vertex.bare = vertices.map Vertex.bare) {i : Nat} {w : Vertex α}
    (hw : vertices'[i]? = some w) : ∃ v, vertices[i]? = some v ∧ v.bare = w.bare := by
  have bare := congrArg (·[i]?) same
  simp only [List.getElem?_map, hw, Option.map_some] at bare
  exact Option.map_eq_some_iff.1 bare.symm

theorem Vertex.point_of_bare {v w : Vertex α} (same : v.bare = w.bare) : v.point = w.point := by
  have point : v.bare.point = w.bare.point := by rw [same]
  exact point

/-! ## Marking corners -/

/-- A selection is none, or a corner that something has been said about. -/
def ValidSelection (vertices : List (Vertex α)) (selected : Option Nat) : Prop :=
  ∀ i, selected = some i → ∃ v, vertices[i]? = some v ∧ v.status ≠ .unsolved

/-- Only the selected corner is active. -/
def ActiveSelected (vertices : List (Vertex α)) (selected : Option Nat) : Prop :=
  ∀ i v, vertices[i]? = some v → v.status = .active → selected = some i

/-- The changes of statuses and of the selection that leave the corners alone. -/
inductive Marking (vertices : List (Vertex α)) (selected : Option Nat) :
    List (Vertex α) → Option Nat → Prop where
  /-- The selected corner, or one that is active, is let go. -/
  | release {i : Nat} {v : Vertex α} : vertices[i]? = some v →
      selected = some i ∨ v.status = .active →
      Marking vertices selected
        (if v.status = .active then marked vertices i .unsolved else vertices) none
  /-- A solved corner is shown. -/
  | present {i : Nat} {v : Vertex α} : vertices[i]? = some v → v.status = .solved →
      Marking vertices selected (Board.calmed vertices) (some i)
  /-- Another corner becomes the active one. -/
  | activate {i : Nat} {v : Vertex α} : vertices[i]? = some v →
      Marking vertices selected (marked (Board.calmed vertices) i .active) (some i)
  /-- The selected corner is solved. -/
  | solve {i : Nat} : selected = some i →
      Marking vertices selected (marked vertices i .solved) none
  /-- One coordinate of the selected corner is right. -/
  | grade {i : Nat} : selected = some i →
      Marking vertices selected (marked vertices i .partly) selected

namespace Marking
variable {vertices vertices' : List (Vertex α)} {selected selected' : Option Nat}

theorem map_bare (h : Marking vertices selected vertices' selected') :
    vertices'.map Vertex.bare = vertices.map Vertex.bare := by
  cases h with
  | release =>
    split
    · exact map_bare_marked _ _ _
    · rfl
  | present => exact map_bare_calmed _
  | activate => rw [map_bare_marked, map_bare_calmed]
  | solve | grade => exact map_bare_marked _ _ _

theorem map_corner (h : Marking vertices selected vertices' selected') :
    vertices'.map Vertex.corner = vertices.map Vertex.corner := by
  have same := congrArg (List.map Vertex.corner) h.map_bare
  rw [List.map_map, List.map_map] at same
  exact same

/-- A vertex of the marked ones is one of those before, up to its status. -/
theorem bare_of_mem (h : Marking vertices selected vertices' selected') {v : Vertex α}
    (hv : v ∈ vertices') : ∃ w ∈ vertices, w.bare = v.bare := by
  have mem : v.bare ∈ vertices'.map Vertex.bare := List.mem_map_of_mem hv
  rw [h.map_bare] at mem
  exact List.mem_map.1 mem

theorem targets (h : Marking vertices selected vertices' selected')
    (own : ∀ v ∈ vertices, v.target = v.point) {v : Vertex α} (hv : v ∈ vertices') :
    v.target = v.point := by
  obtain ⟨w, hw, same⟩ := h.bare_of_mem hv
  have target : w.bare.target = v.bare.target := by rw [same]
  exact target.symm.trans ((own w hw).trans (Vertex.point_of_bare same))

theorem validSelection (h : Marking vertices selected vertices' selected')
    (valid : ValidSelection vertices selected) : ValidSelection vertices' selected' := by
  intro j hj
  cases h with
  | release | solve => cases hj
  | present hv solved =>
    cases hj
    refine ⟨_, by rw [getElem?_calmed, hv]; rfl, ?_⟩
    simp [solved]
  | activate hv =>
    cases hj
    exact ⟨_, by rw [getElem?_marked, if_pos rfl, getElem?_calmed, hv]; rfl, by simp⟩
  | grade hi =>
    obtain ⟨v, hv, -⟩ := valid j hj
    rw [hi] at hj
    cases hj
    exact ⟨_, by rw [getElem?_marked, if_pos rfl, hv]; rfl, by simp⟩

/-- With the selected corner marked inactive, none is active. -/
theorem inactive_of_marked (one : ActiveSelected vertices selected) {i : Nat} {status : Status}
    (hi : selected = some i) (inactive : status ≠ .active) {j : Nat} {v : Vertex α}
    (hj : (marked vertices i status)[j]? = some v) : v.status ≠ .active := by
  intro active
  rw [getElem?_marked] at hj
  split at hj
  · rw [Option.map_eq_some_iff] at hj
    obtain ⟨w, -, rfl⟩ := hj
    exact inactive active
  · next other =>
    have same := one j v hj active
    rw [hi] at same
    exact other (Option.some.inj same)

theorem activeSelected (h : Marking vertices selected vertices' selected')
    (one : ActiveSelected vertices selected) : ActiveSelected vertices' selected' := by
  intro j w hw active
  cases h with
  | @release i v hv why =>
    split at hw
    · next hactive =>
      exact absurd active (inactive_of_marked one (one i v hv hactive) (by simp) hw)
    · next idle =>
      have hj := one j w hw active
      rw [why.resolve_right idle] at hj
      cases hj
      rw [hv] at hw
      cases hw
      exact absurd active idle
  | present => exact absurd active (status_of_calmed hw)
  | activate hv =>
    rw [getElem?_marked] at hw
    split at hw
    · next same => rw [same]
    · exact absurd active (status_of_calmed hw)
  | solve hi => exact absurd active (inactive_of_marked one hi (by simp) hw)
  | grade hi => exact absurd active (inactive_of_marked one hi (by simp) hw)

end Marking

/-! ## Corners worked out again -/

section Refreshed
variable [Scalar α]

theorem Board.continued_some {old : List (Vertex α)} {p : Point α} {v : Vertex α} {s : Nat}
    (h : Board.continued old p = some (v, s)) : old[s]? = some v ∧ v.point.near p = true :=
  ⟨List.mem_zipIdx_iff_getElem?.1 (List.mem_of_find?_eq_some h), by simpa using List.find?_some h⟩

/-- The corners worked out again, as they come onto the board. -/
def refreshedVertices (old : List (Vertex α)) (corners : List (Corner α)) : List (Vertex α) :=
  corners.map (Board.vertexOf old)

theorem getElem?_refreshed {old : List (Vertex α)} {corners : List (Corner α)} {i : Nat}
    {v : Vertex α} (h : (refreshedVertices old corners)[i]? = some v) :
    ∃ c, corners[i]? = some c ∧ v = Board.vertexOf old c := by
  unfold refreshedVertices at h
  rw [List.getElem?_map, Option.map_eq_some_iff] at h
  obtain ⟨c, hc, rfl⟩ := h
  exact ⟨c, hc, rfl⟩

theorem refreshed_getElem? (old : List (Vertex α)) {corners : List (Corner α)} {i : Nat}
    {c : Corner α} (h : corners[i]? = some c) :
    (refreshedVertices old corners)[i]? = some (Board.vertexOf old c) := by
  unfold refreshedVertices
  rw [List.getElem?_map, h]
  rfl

theorem map_corner_refreshed (old : List (Vertex α)) (corners : List (Corner α)) :
    (refreshedVertices old corners).map Vertex.corner = corners := by
  unfold refreshedVertices
  rw [List.map_map]
  exact List.map_id _

theorem status_vertexOf {old : List (Vertex α)} {c : Corner α} {v : Vertex α} {s : Nat}
    (h : Board.continued old c.point = some (v, s)) : (Board.vertexOf old c).status = v.status := by
  simp only [Board.vertexOf, h]

/-- A status that a corner comes with, other than the first one, is one it had. -/
theorem continued_of_status {old : List (Vertex α)} {c : Corner α}
    (h : (Board.vertexOf old c).status ≠ .unsolved) :
    ∃ v s, Board.continued old c.point = some (v, s) ∧ v.status = (Board.vertexOf old c).status := by
  simp only [Board.vertexOf] at h ⊢
  cases hc : Board.continued old c.point with
  | none => rw [hc] at h; exact absurd rfl h
  | some w => exact ⟨w.1, w.2, rfl, rfl⟩

theorem continued_of_selectionOf {old : List (Vertex α)} {selected : Option Nat}
    {corners : List (Corner α)} {i : Nat} (h : Board.selectionOf old selected corners = some i) :
    ∃ s c v, selected = some s ∧ corners[i]? = some c ∧
      Board.continued old c.point = some (v, s) := by
  unfold Board.selectionOf at h
  split at h
  · cases h
  · next s =>
    rw [Option.map_eq_some_iff] at h
    obtain ⟨⟨c, j⟩, last, rfl⟩ := h
    obtain ⟨mem, kept⟩ := List.mem_filter.1 (List.mem_of_getLast? last)
    obtain ⟨⟨v, t⟩, hv, ht⟩ := (Option.any_eq_true _ _).1 kept
    have same : t = s := by simpa using ht
    subst same
    exact ⟨t, c, v, rfl, List.mem_zipIdx_iff_getElem?.1 mem, hv⟩

theorem selectionOf_isSome {old : List (Vertex α)} {s : Nat} {corners : List (Corner α)} {i : Nat}
    {c : Corner α} {v : Vertex α} (hc : corners[i]? = some c)
    (hv : Board.continued old c.point = some (v, s)) :
    ∃ j, Board.selectionOf old (some s) corners = some j := by
  have mem : (c, i) ∈ corners.zipIdx.filter fun d =>
      (Board.continued old d.1.point).any fun v => v.2 == s := by
    refine List.mem_filter.2 ⟨List.mem_zipIdx_iff_getElem?.2 hc, ?_⟩
    simp [hv]
  cases h : Board.selectionOf old (some s) corners with
  | some j => exact ⟨j, rfl⟩
  | none =>
    have nothing := List.getLast?_eq_none_iff.1 (Option.map_eq_none_iff.1 h)
    exact absurd mem (by rw [nothing]; simp)

theorem validSelection_refreshed {old : List (Vertex α)} {selected : Option Nat}
    (valid : ValidSelection old selected) (corners : List (Corner α)) :
    ValidSelection (refreshedVertices old corners) (Board.selectionOf old selected corners) := by
  intro i hi
  obtain ⟨s, c, v, hs, hc, hv⟩ := continued_of_selectionOf hi
  obtain ⟨w, hw, said⟩ := valid s hs
  have same : v = w := Option.some.inj ((Board.continued_some hv).1.symm.trans hw)
  refine ⟨Board.vertexOf old c, refreshed_getElem? old hc, ?_⟩
  rw [status_vertexOf hv, same]
  exact said

end Refreshed
end HalfPlane
