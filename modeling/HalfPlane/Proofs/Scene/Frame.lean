/-
The layers of a frame.

Each part of a frame keeps to layers of its own, so its marks can be told from all others. The
corners and the points checked by hand come last and have the last two layers to themselves
(`exists_ground`). So the texts beside the corners can be read off a frame
(`filterMap_caption?`), and the colours of the checked points (`filterMap_verdict?`).
-/
import HalfPlane.Proofs.Geometry.Lines
import HalfPlane.Scene.Frame

namespace HalfPlane
variable {α : Type} [Scalar α]

/-! ## Parts -/

theorem Grid.layer_of_mem_lines {v : View α} {xs ys : List Int} {m : Mark α}
    (hm : m ∈ lines v xs ys) : m.layer = .grid := by
  simp only [lines, List.mem_append, List.mem_map] at hm
  rcases hm with ⟨i, -, rfl⟩ | ⟨j, -, rfl⟩ <;> rfl

theorem Grid.layer_of_mem_axes {v : View α} {xs ys : List Int} {m : Mark α}
    (hm : m ∈ axes v xs ys) : m.layer = .axis := by
  have onAxis {place : Int → Mark α} (layer : ∀ n, (place n).layer = .axis) {ns : List Int}
      (hm : m ∈ ns.map place) : m.layer = .axis := by
    obtain ⟨n, -, rfl⟩ := List.mem_map.1 hm
    exact layer n
  simp only [axes, List.mem_append] at hm
  rcases hm with (hm | hm) | hm
  · split at hm
    · simp only [xAxis, List.mem_append, List.mem_cons, List.not_mem_nil, or_false] at hm
      rcases hm with (rfl | rfl | rfl) | hm
      · rfl
      · rfl
      · rfl
      · exact onAxis (fun _ => rfl) hm
    · cases hm
  · split at hm
    · simp only [yAxis, List.mem_append, List.mem_cons, List.not_mem_nil, or_false] at hm
      rcases hm with (rfl | rfl | rfl) | hm
      · rfl
      · rfl
      · rfl
      · exact onAxis (fun _ => rfl) hm
    · cases hm
  · split at hm
    · rw [List.mem_singleton.1 hm]
      rfl
    · cases hm

theorem Grid.layer_of_mem [Rounding α] {v : View α} {ms : List (Mark α)} {m : Mark α}
    (h : marks v = .ok ms) (hm : m ∈ ms) : m.layer = .grid ∨ m.layer = .axis := by
  obtain ⟨⟨xs, ys⟩, -, h⟩ := bind_ok_iff.1 h
  cases h
  exact (List.mem_append.1 hm).imp layer_of_mem_lines layer_of_mem_axes

theorem Control.layer_of_ofSide [Hypot α] {q : Inequality α} {v : View α} {side : Side}
    {c : Control α} (h : ofSide q v side = .ok (some c)) : c.layer = .region := by
  obtain ⟨p?, -, h⟩ := bind_ok_iff.1 h
  cases p? with
  | none => cases h
  | some p =>
    obtain ⟨satisfies, -, h⟩ := bind_ok_iff.1 h
    cases h
    rfl

namespace Scene

theorem layer_of_mem_fill [Hypot α] {q : Inequality α} {v : View α} {strong : Bool}
    {ms : List (Mark α)} {m : Mark α} (h : fill q v strong = .ok ms) (hm : m ∈ ms) :
    m.layer = .fill := by
  unfold fill at h
  split at h
  · cases h
    cases hm
  · obtain ⟨shading, -, h⟩ := bind_ok_iff.1 h
    cases shading with
    | none =>
      cases h
      cases hm
    | some corners =>
      cases h
      rw [List.mem_singleton.1 hm]
      rfl

theorem layer_of_mem_lineName {q : Inequality α} {v : View α} {s t : Pixel α} {m : Mark α}
    (hm : m ∈ lineName q v s t) : m.layer = .label := by
  unfold lineName at hm
  split at hm
  · cases hm
  · rw [List.mem_singleton.1 hm]
    rfl

theorem layer_of_mem_inequality [Hypot α] {q : Inequality α} {v : View α} {strong : Bool}
    {ms : List (Mark α)} {m : Mark α} (h : inequality v strong q = .ok ms) (hm : m ∈ ms) :
    m.layer = .fill ∨ m.layer = .boundary ∨ m.layer = .label := by
  obtain ⟨shading, shaded, h⟩ := bind_ok_iff.1 h
  obtain ⟨ends, -, h⟩ := bind_ok_iff.1 h
  cases h
  rcases List.mem_append.1 hm with hm | hm
  · exact .inl (layer_of_mem_fill shaded hm)
  · rcases List.mem_cons.1 hm with rfl | hm
    · exact .inr (.inl rfl)
    · exact .inr (.inr (layer_of_mem_lineName hm))

theorem layer_of_mem_vertex [Exact α] {v : View α} {selected : Option Nat} {i : Nat}
    {x : Vertex α} {m : Mark α} (hm : m ∈ vertex v selected i x) : m.layer = .vertex := by
  simp only [vertex] at hm
  split at hm
  · rcases List.mem_cons.1 hm with rfl | hm
    · rfl
    · rw [List.mem_singleton.1 hm]
      rfl
  · rw [List.mem_singleton.1 hm]
    rfl

end Scene

/-! ## The frame -/

/-- Where a text beside a corner stands, and what it says. -/
def Mark.caption? : Mark α → Option (Pixel α × String)
  | .label l => if l.layer = .vertex then some (l.place, l.text) else none
  | _ => none

/-- Where a marker of a checked point stands, and its colour. -/
def Mark.verdict? : Mark α → Option (Pixel α × String)
  | .marker m => if m.layer = .point then some (m.place, m.fill) else none
  | _ => none

omit [Scalar α] in
theorem Mark.caption?_eq_none {m : Mark α} (h : m.layer ≠ .vertex) : m.caption? = none := by
  cases m with
  | label l => exact if_neg h
  | rect | segment | polygon | marker | control => rfl

omit [Scalar α] in
theorem Mark.verdict?_eq_none {m : Mark α} (h : m.layer ≠ .point) : m.verdict? = none := by
  cases m with
  | marker m => exact if_neg h
  | rect | segment | polygon | label | control => rfl

namespace Scene

theorem layer_of_mem_checkedPoint [Exact α] {v : View α} {p : CheckedPoint α} {m : Mark α}
    (hm : m ∈ checkedPoint v p) : m.layer = .point := by
  simp only [checkedPoint, List.mem_cons, List.not_mem_nil, or_false] at hm
  rcases hm with rfl | rfl <;> rfl

/-- Only a solved corner has its coordinates beside it. -/
theorem filterMap_caption?_vertex [Exact α] (v : View α) (selected : Option Nat) (i : Nat)
    (x : Vertex α) :
    (vertex v selected i x).filterMap Mark.caption? =
      if x.status = .solved then
        [(⟨(v.toScreen x.point).x + 8.0, (v.toScreen x.point).y - 8.0⟩,
          coordinates (fixedText 1) x.point)]
      else [] := by
  simp only [vertex]
  split <;> rfl

variable {α : Type} [Coordinate α] {c : Content α} {ms : List (Mark α)}

/-- The corners and the checked points come after everything else. -/
theorem exists_ground (h : marks c = .ok ms) :
    ∃ ground,
      ms = ground ++ c.vertices.zipIdx.flatMap (fun (x, i) => vertex c.view c.selected i x) ++
        c.checked.flatMap (checkedPoint c.view) ∧
      ∀ m ∈ ground, m.layer ≠ .vertex ∧ m.layer ≠ .point := by
  obtain ⟨grid, hg, h⟩ := bind_ok_iff.1 h
  obtain ⟨inequalities, hi, h⟩ := bind_ok_iff.1 h
  obtain ⟨controls, hc, h⟩ := bind_ok_iff.1 h
  cases h
  refine ⟨_, by rw [List.flatMap_def, List.flatMap_def], fun m hm => ?_⟩
  have apart (layer : Layer) (is : m.layer = layer) (other : layer ≠ .vertex ∧ layer ≠ .point) :
      m.layer ≠ .vertex ∧ m.layer ≠ .point := by
    rw [is]
    exact other
  simp only [List.cons_append, List.mem_cons, List.mem_append] at hm
  rcases hm with rfl | (hm | hm) | hm
  · exact apart .background rfl (by decide)
  · rcases Grid.layer_of_mem hg hm with is | is
    · exact apart _ is (by decide)
    · exact apart _ is (by decide)
  · obtain ⟨drawn, hd, hm⟩ := List.mem_flatten.1 hm
    obtain ⟨q, -, made⟩ := exists_of_mem_mapM hi hd
    rcases layer_of_mem_inequality made hm with is | is | is
    · exact apart _ is (by decide)
    · exact apart _ is (by decide)
    · exact apart _ is (by decide)
  · obtain ⟨box, hb, rfl⟩ := List.mem_map.1 hm
    obtain ⟨q, -, -, side, made⟩ := Control.exists_ofSide hc hb
    exact apart _ (Control.layer_of_ofSide made) (by decide)

/-- The texts beside the corners are the coordinates of the solved ones. -/
theorem filterMap_caption? (h : marks c = .ok ms) :
    ms.filterMap Mark.caption? = (c.vertices.filter (·.status = .solved)).map fun x =>
      (⟨(c.view.toScreen x.point).x + 8.0, (c.view.toScreen x.point).y - 8.0⟩,
        coordinates (fixedText 1) x.point) := by
  obtain ⟨ground, rfl, other⟩ := exists_ground h
  have points : (c.checked.flatMap (checkedPoint c.view)).filterMap Mark.caption? = [] := by
    refine List.filterMap_eq_nil_iff.2 fun m hm => Mark.caption?_eq_none ?_
    obtain ⟨p, -, hm⟩ := List.mem_flatMap.1 hm
    rw [layer_of_mem_checkedPoint hm]
    decide
  rw [List.filterMap_append, List.filterMap_append, points, List.append_nil,
    List.filterMap_eq_nil_iff.2 fun m hm => Mark.caption?_eq_none (other m hm).1, List.nil_append]
  generalize 0 = start
  induction c.vertices generalizing start with
  | nil => rfl
  | cons x xs ih =>
    rw [List.zipIdx_cons, List.flatMap_cons, List.filterMap_append, ih,
      filterMap_caption?_vertex, List.filter_cons]
    by_cases solved : x.status = .solved <;> simp [solved]

/-- A checked point has the colour of its verdict. -/
theorem filterMap_verdict? (h : marks c = .ok ms) :
    ms.filterMap Mark.verdict? = c.checked.map fun p =>
      (c.view.toScreen p.point, if p.ok then Theme.pointOk else Theme.pointBad) := by
  obtain ⟨ground, rfl, other⟩ := exists_ground h
  have corners : (c.vertices.zipIdx.flatMap fun (x, i) =>
      vertex c.view c.selected i x).filterMap Mark.verdict? = [] := by
    refine List.filterMap_eq_nil_iff.2 fun m hm => Mark.verdict?_eq_none ?_
    obtain ⟨x, -, hm⟩ := List.mem_flatMap.1 hm
    rw [layer_of_mem_vertex hm]
    decide
  rw [List.filterMap_append, List.filterMap_append, corners, List.append_nil,
    List.filterMap_eq_nil_iff.2 fun m hm => Mark.verdict?_eq_none (other m hm).2, List.nil_append]
  induction c.checked with
  | nil => rfl
  | cons p ps ih =>
    rw [List.flatMap_cons, List.filterMap_append, ih]
    rfl

end Scene
end HalfPlane
