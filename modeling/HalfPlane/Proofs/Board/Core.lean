/-
What is cast on a board and what is claimed of it, and every way in which that changes.

`Core.Step` says it once for all operations: the corners are marked, or the inequalities
change and the corners are worked out again, or a label is used up, or another line is
hovered, or all is cleared. The invariant of a board, `Core.Coherent`, is kept by each of
them. Nothing here depends on the arithmetic.
-/
import HalfPlane.Board.Casting
import HalfPlane.Proofs.Board.Marks
import HalfPlane.Proofs.Geometry.Lines

namespace HalfPlane
variable {α : Type}

/-- What a board keeps of inequalities and corners, apart from its window, its pointer and
what it says. -/
structure Core (α : Type) where
  /-- The labels given since the board was cleared. -/
  given : List String
  inequalities : List (Inequality α)
  vertices : List (Vertex α)
  selected : Option Nat
  hovered : Option String

namespace Core

def empty : Core α := ⟨[], [], [], none, none⟩

def labels (c : Core α) : List String := c.inequalities.map (·.label)

variable [Scalar α]

/-! ## Steps -/

/-- The changes of the inequalities after which the corners are worked out again. -/
inductive Recast (c : Core α) : Core α → Prop where
  | add {q : Inequality α} : q.form.HasLine → q.solution = .start q.form.operator →
      Recast c { c with given := c.given ++ [q.label], inequalities := c.inequalities ++ [q] }
  | remove (label : String) :
      Recast c
        { c with
          inequalities := c.inequalities.eraseP fun q => q.label == label
          hovered := if c.hovered = some label then none else c.hovered }
  | claim {q : Inequality α} {label : String} {solution : Solution} :
      c.inequalities.find? (fun q => q.label == label) = some q → q.form.operator ≠ .eq →
      solution ≠ .solved none →
      Recast c { c with inequalities := Board.claimed label solution c.inequalities }

variable [Hypot α]

/-- The corners worked out again, over a list that gave these. -/
def withCorners (c : Core α) (corners : List (Corner α)) : Core α :=
  { c with
    vertices := refreshedVertices c.vertices corners
    selected := Board.selectionOf c.vertices c.selected corners }

/-- What an operation can do. -/
inductive Step (c : Core α) : Core α → Prop where
  | idle : Step c c
  | label (l : String) : Step c { c with given := c.given ++ [l] }
  | hover {h : Option String} : (∀ l, h = some l → l ∈ c.labels) → Step c { c with hovered := h }
  | mark {vertices : List (Vertex α)} {selected : Option Nat} :
      Marking c.vertices c.selected vertices selected → Step c { c with vertices, selected }
  | recast {d : Core α} {corners : List (Corner α)} : Recast c d →
      Corner.ofInequalities d.inequalities = .ok corners → Step c (d.withCorners corners)
  | clear : Step c empty

end Core

/-! ## Claims -/

/-- A claim leaves all of an inequality but its solution. -/
theorem map_claimed {β : Type} {f : Inequality α → β}
    (same : ∀ (q : Inequality α) solution, f { q with solution } = f q) (label : String)
    (solution : Solution) :
    ∀ qs : List (Inequality α), (Board.claimed label solution qs).map f = qs.map f
  | [] => rfl
  | q :: qs => by
    simp only [Board.claimed]
    split
    · rw [List.map_cons, List.map_cons, same]
    · rw [List.map_cons, map_claimed same label solution qs, List.map_cons]

/-- An inequality after a claim was there before, or is the one that was claimed. -/
theorem of_mem_claimed {label : String} {solution : Solution} {q : Inequality α} :
    ∀ {qs : List (Inequality α)}, q ∈ Board.claimed label solution qs →
      q ∈ qs ∨ ∃ p ∈ qs, qs.find? (fun p => p.label == label) = some p ∧ q = { p with solution }
  | [], h => by cases h
  | p :: qs, h => by
    simp only [Board.claimed] at h
    split at h
    · next same =>
      rcases List.mem_cons.1 h with rfl | h
      · exact .inr ⟨p, by simp, by rw [List.find?_cons_of_pos (by simpa using same)], rfl⟩
      · exact .inl (by simp [h])
    · next other =>
      rcases List.mem_cons.1 h with rfl | h
      · exact .inl (by simp)
      · rcases of_mem_claimed h with h | ⟨r, hr, found, rfl⟩
        · exact .inl (by simp [h])
        · refine .inr ⟨r, by simp [hr], ?_, rfl⟩
          rw [List.find?_cons_of_neg (by simpa using other)]
          exact found

theorem AllHaveLines.claimed [Scalar α] {qs : List (Inequality α)} (h : AllHaveLines qs)
    (label : String) (solution : Solution) : AllHaveLines (Board.claimed label solution qs) := by
  intro q hq
  rcases of_mem_claimed hq with hq | ⟨p, hp, -, rfl⟩
  · exact h q hq
  · exact h p hp

namespace Core
variable [Scalar α]

/-! ## What is cast -/

/-- What holds of the inequalities of a board, and of the label that is hovered. -/
structure WellCast (c : Core α) : Prop where
  lines : AllHaveLines c.inequalities
  /-- The labels are among those given, in that order. -/
  labels : c.labels.Sublist c.given
  equations : ∀ q ∈ c.inequalities, q.solution = .solved none ↔ q.form.operator = .eq
  hovered : ∀ l, c.hovered = some l → l ∈ c.labels

namespace WellCast

theorem empty : (Core.empty : Core α).WellCast where
  lines _ h := by cases h
  labels := List.Sublist.slnil
  equations _ h := by cases h
  hovered _ h := by cases h

theorem add {c : Core α} (h : c.WellCast) {q : Inequality α} (line : q.form.HasLine)
    (start : q.solution = .start q.form.operator) :
    ({ c with
        given := c.given ++ [q.label], inequalities := c.inequalities ++ [q] } : Core α).WellCast := by
  have mem : ∀ {r}, r ∈ c.inequalities ++ [q] → r ∈ c.inequalities ∨ r = q := by simp
  have labels : (c.inequalities ++ [q]).map (·.label) = c.labels ++ [q.label] := List.map_append
  refine ⟨fun r hr => ?_, ?_, fun r hr => ?_, fun l hl => ?_⟩
  · rcases mem hr with hr | rfl
    · exact h.lines r hr
    · exact line
  · show ((c.inequalities ++ [q]).map (·.label)).Sublist _
    rw [labels]
    exact h.labels.append (.refl _)
  · rcases mem hr with hr | rfl
    · exact h.equations r hr
    · rw [start]
      cases r.form.operator <;> simp [Solution.start]
  · show l ∈ (c.inequalities ++ [q]).map (·.label)
    rw [labels]
    exact List.mem_append_left _ (h.hovered l hl)

theorem remove {c : Core α} (h : c.WellCast) (label : String) :
    ({ c with
        inequalities := c.inequalities.eraseP fun q => q.label == label
        hovered := if c.hovered = some label then none else c.hovered } : Core α).WellCast := by
  have sub : (c.inequalities.eraseP fun q => q.label == label).Sublist c.inequalities :=
    List.eraseP_sublist
  refine ⟨h.lines.of_subset sub.subset, (sub.map _).trans h.labels,
    fun q hq => h.equations q (sub.subset hq), fun l hl => ?_⟩
  dsimp only at hl
  split at hl
  · cases hl
  · next other =>
    obtain ⟨q, hq, rfl⟩ := List.mem_map.1 (h.hovered l hl)
    have ne : ¬ (q.label == label) = true := fun same =>
      other (by rw [hl, beq_iff_eq.1 same])
    have kept : q ∈ c.inequalities.eraseP fun q => q.label == label :=
      (List.mem_eraseP_of_neg (p := fun q => q.label == label) ne).2 hq
    exact List.mem_map_of_mem kept

theorem claim {c : Core α} (h : c.WellCast) {q : Inequality α} {label : String}
    {solution : Solution} (found : c.inequalities.find? (fun q => q.label == label) = some q)
    (region : q.form.operator ≠ .eq) (side : solution ≠ .solved none) :
    ({ c with inequalities := Board.claimed label solution c.inequalities } : Core α).WellCast := by
  have labels := map_claimed (f := (·.label)) (fun _ _ => rfl) label solution c.inequalities
  refine ⟨h.lines.claimed label solution, ?_, fun r hr => ?_, fun l hl => ?_⟩
  · show ((Board.claimed label solution c.inequalities).map (·.label)).Sublist _
    rw [labels]
    exact h.labels
  · rcases of_mem_claimed hr with hr | ⟨p, -, hp, rfl⟩
    · exact h.equations r hr
    · rw [found] at hp
      cases hp
      exact ⟨fun hs => absurd hs side, fun hs => absurd hs region⟩
  · show l ∈ (Board.claimed label solution c.inequalities).map (·.label)
    rw [labels]
    exact h.hovered l hl

theorem recast {c d : Core α} (h : c.WellCast) (step : Recast c d) : d.WellCast := by
  cases step with
  | add line start => exact h.add line start
  | remove label => exact h.remove label
  | claim found region side => exact h.claim found region side

end WellCast

/-! ## What is marked -/

theorem Recast.marks_eq {c d : Core α} (step : Recast c d) :
    d.vertices = c.vertices ∧ d.selected = c.selected := by
  cases step <;> exact ⟨rfl, rfl⟩

variable [Hypot α]

/-- What holds of the corners of a board: they are those of the region claimed, each is
its own target, and the selected one is there and has been marked. -/
structure WellMarked (c : Core α) : Prop where
  corners : Corner.ofInequalities c.inequalities = .ok (c.vertices.map Vertex.corner)
  targets : ∀ v ∈ c.vertices, v.target = v.point
  selected : ValidSelection c.vertices c.selected

namespace WellMarked

theorem mark {c : Core α} (h : c.WellMarked) {vertices : List (Vertex α)} {selected : Option Nat}
    (marking : Marking c.vertices c.selected vertices selected) :
    ({ c with vertices, selected } : Core α).WellMarked where
  corners := by rw [marking.map_corner]; exact h.corners
  targets _ hv := marking.targets h.targets hv
  selected := marking.validSelection h.selected

theorem recast {d : Core α} (valid : ValidSelection d.vertices d.selected)
    {corners : List (Corner α)} (h : Corner.ofInequalities d.inequalities = .ok corners) :
    (d.withCorners corners).WellMarked where
  corners := by
    show _ = Except.ok ((refreshedVertices d.vertices corners).map Vertex.corner)
    rw [map_corner_refreshed]
    exact h
  targets v hv := by
    obtain ⟨c, -, rfl⟩ := List.mem_map.1 hv
    rfl
  selected := validSelection_refreshed valid corners

end WellMarked

/-! ## The invariant -/

/-- What holds of a board at all times. -/
structure Coherent (c : Core α) : Prop extends WellCast c, WellMarked c

namespace Coherent

theorem empty : (Core.empty : Core α).Coherent where
  toWellCast := .empty
  corners := rfl
  targets _ h := by cases h
  selected _ h := by cases h

theorem label {c : Core α} (h : c.Coherent) (l : String) :
    ({ c with given := c.given ++ [l] } : Core α).Coherent :=
  ⟨⟨h.lines, h.labels.trans (List.sublist_append_left _ _), h.equations, h.hovered⟩,
    h.corners, h.targets, h.selected⟩

theorem hover {c : Core α} (h : c.Coherent) {l : Option String}
    (known : ∀ m, l = some m → m ∈ c.labels) : ({ c with hovered := l } : Core α).Coherent :=
  ⟨⟨h.lines, h.labels, h.equations, known⟩, h.corners, h.targets,
    h.selected⟩

theorem mark {c : Core α} (h : c.Coherent) {vertices : List (Vertex α)} {selected : Option Nat}
    (marking : Marking c.vertices c.selected vertices selected) :
    ({ c with vertices, selected } : Core α).Coherent :=
  ⟨⟨h.lines, h.labels, h.equations, h.hovered⟩, h.toWellMarked.mark marking⟩

theorem recast {c d : Core α} (h : c.Coherent) (step : Recast c d) {corners : List (Corner α)}
    (hc : Corner.ofInequalities d.inequalities = .ok corners) :
    (d.withCorners corners).Coherent := by
  have cast := h.toWellCast.recast step
  refine ⟨⟨cast.lines, cast.labels, cast.equations, cast.hovered⟩, .recast ?_ hc⟩
  rw [step.marks_eq.1, step.marks_eq.2]
  exact h.selected

/-- Every step keeps the invariant. -/
theorem step {c d : Core α} (h : c.Coherent) (step : Step c d) : d.Coherent := by
  cases step with
  | idle => exact h
  | label l => exact h.label l
  | hover known => exact h.hover known
  | mark marking => exact h.mark marking
  | recast recast hc => exact h.recast recast hc
  | clear => exact .empty

end Coherent
end Core
end HalfPlane
