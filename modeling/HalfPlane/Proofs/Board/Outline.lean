/-
The outline of a frame: all its marks, part by part.

A frame that is painted at all shows each thing it should exactly once and in its place. Of the
lines this rests on what holds of every board: an equation is solved without a side, and the labels
are different. And it rests on the arithmetic: the far points of a line are so far apart that the
line has a normal, so neither the shading nor a box for a side is left out (`exists_shade`,
`exists_mark`).
-/
import Mathlib.Data.List.Forall2
import HalfPlane.Board.Picture
import HalfPlane.Proofs.Board.Reachable
import HalfPlane.Proofs.Double.Lengths
import HalfPlane.Proofs.Scene.Frame

namespace HalfPlane

/-- What a run over a list gives, each element gave, and in the same order. -/
theorem exists_forall₂_of_mapM {ε β γ δ : Type} {f : β → Except ε γ} {g : δ → γ}
    {R : β → δ → Prop} : ∀ {l : List β} {rs : List γ},
      (∀ x ∈ l, ∀ r, f x = .ok r → ∃ d, r = g d ∧ R x d) → l.mapM f = .ok rs →
        ∃ ds, rs = ds.map g ∧ List.Forall₂ R l ds
  | [], rs, _, h => by
    cases h
    exact ⟨[], rfl, .nil⟩
  | x :: l, rs, each, h => by
    rw [List.mapM_cons] at h
    obtain ⟨first, hf, h⟩ := bind_ok_iff.1 h
    obtain ⟨rest, hl, h⟩ := bind_ok_iff.1 h
    cases h
    obtain ⟨d, rfl, hd⟩ := each x (by simp) first hf
    obtain ⟨ds, rfl, hds⟩ := exists_forall₂_of_mapM (fun y hy => each y (by simp [hy])) hl
    exact ⟨d :: ds, rfl, .cons hd hds⟩

/-! ## Nothing is left out -/

namespace LinearForm
variable {f : LinearForm Float}

theorem exists_mark {side : Side} {p? : Option (Point Float)} (h : f.mark side = .ok p?) :
    ∃ p, p? = some p := by
  obtain ⟨n?, normal, h⟩ := bind_ok_iff.1 h
  obtain ⟨n, rfl⟩ := exists_unitNormal normal
  obtain ⟨mid, -, h⟩ := bind_ok_iff.1 h
  cases h
  exact ⟨_, rfl⟩

/-- A half plane that is claimed has a shading. -/
theorem exists_shade {side : Side} {corners? : Option (List (Point Float))}
    (region : f.operator ≠ .eq) (h : f.shade (some side) = .ok corners?) :
    ∃ corners, corners? = some corners := by
  obtain ⟨d?, direction, h⟩ := bind_ok_iff.1 h
  rw [fillDirection, if_neg region] at direction
  obtain ⟨n?, normal, direction⟩ := bind_ok_iff.1 direction
  obtain ⟨n, rfl⟩ := exists_unitNormal normal
  cases side <;>
  · cases direction
    obtain ⟨far, -, h⟩ := bind_ok_iff.1 h
    cases h
    exact ⟨_, rfl⟩

end LinearForm

namespace Control
variable {v : View Float}

theorem exists_of_ofSide {q : Inequality Float} {side : Side} {c? : Option (Control Float)}
    (h : ofSide q v side = .ok c?) : ∃ c, c? = some c ∧ c.label = q.label ∧ c.side = side := by
  obtain ⟨p?, mark, h⟩ := bind_ok_iff.1 h
  obtain ⟨p, rfl⟩ := LinearForm.exists_mark mark
  obtain ⟨satisfies, -, h⟩ := bind_ok_iff.1 h
  cases h
  exact ⟨_, rfl, rfl, rfl⟩

/-- The sides for which there are boxes: both of each inequality that is not solved. -/
def choices {α : Type} (qs : List (Inequality α)) : List (String × Side) :=
  (qs.filter (!·.solution.isSolved)).flatMap fun q => [(q.label, .regionA), (q.label, .regionB)]

theorem map_ofInequalities : ∀ {qs : List (Inequality Float)} {cs : List (Control Float)},
    ofInequalities v qs = .ok cs → cs.map (fun c => (c.label, c.side)) = choices qs
  | [], cs, h => by
    cases h
    rfl
  | q :: qs, cs, h => by
    unfold ofInequalities at h
    split at h
    · next solved =>
      rw [map_ofInequalities h]
      simp [choices, solved]
    · next unsolved =>
      obtain ⟨a?, first, h⟩ := bind_ok_iff.1 h
      obtain ⟨b?, second, h⟩ := bind_ok_iff.1 h
      obtain ⟨more, rest, h⟩ := bind_ok_iff.1 h
      obtain ⟨a, rfl, labelA, sideA⟩ := exists_of_ofSide first
      obtain ⟨b, rfl, labelB, sideB⟩ := exists_of_ofSide second
      cases h
      simp [choices, unsolved, labelA, sideA, labelB, sideB, map_ofInequalities rest]

/-- With different labels, no box has the label of an inequality that is solved. -/
theorem label_ne_of_solved {qs : List (Inequality Float)} {cs : List (Control Float)}
    (different : (qs.map (·.label)).Nodup) (made : ofInequalities v qs = .ok cs)
    {q : Inequality Float} (hq : q ∈ qs) (solved : q.solution.isSolved = true)
    {c : Control Float} (hc : c ∈ cs) : c.label ≠ q.label := by
  obtain ⟨r, hr, unsolved, side, box⟩ := exists_ofSide made hc
  rw [label_of_ofSide box]
  intro same
  rw [List.inj_on_of_nodup_map different hr hq same, solved] at unsolved
  cases unsolved

end Control

/-! ## Outlines -/

namespace Scene
variable {α : Type}

/-- What a frame shows of an inequality. -/
structure Drawn (α : Type) where
  fill : Option (Polygon α)
  line : Segment α
  name : Option (Label α)

def Drawn.marks (d : Drawn α) : List (Mark α) :=
  (d.fill.map .polygon).toList ++ .segment d.line :: (d.name.map .label).toList

/-- A corner, with its coordinates where they are shown. -/
structure Pinned (α : Type) where
  marker : Marker α
  note : Option (Label α)

def Pinned.marks (p : Pinned α) : List (Mark α) := .marker p.marker :: (p.note.map .label).toList

/-- The parts of a frame. -/
structure Outline (α : Type) where
  background : Rect α
  grid : List (Mark α)
  axes : List (Mark α)
  inequalities : List (Drawn α)
  controls : List (Control α)
  corners : List (Pinned α)
  points : List (Marker α × Label α)

/-- The marks of all parts, in the order they are painted. -/
def Outline.marks (o : Outline α) : List (Mark α) :=
  .rect o.background :: o.grid ++ o.axes ++ o.inequalities.flatMap Drawn.marks ++
    o.controls.map .control ++ o.corners.flatMap Pinned.marks ++
    o.points.flatMap fun (m, l) => [.marker m, .label l]

/-! ## What is shown -/

/-- A label is that of the hovered inequality, or of a line of the selected corner. -/
def Emphasised (c : Content α) (label : String) : Prop :=
  c.hovered = some label ∨ ∃ i x, c.selected = some i ∧ c.vertices[i]? = some x ∧
    (x.lines.1 = label ∨ x.lines.2 = label)

theorem mem_emphasised_iff {c : Content α} {label : String} :
    (emphasised c).contains label = true ↔ Emphasised c label := by
  rw [List.contains_iff_mem, emphasised, List.mem_append, Option.mem_toList, Emphasised]
  refine or_congr Iff.rfl ?_
  cases c.selected with
  | none => simp
  | some i => cases h : c.vertices[i]? <;> simp [h, eq_comm]

instance (c : Content α) (label : String) : Decidable (Emphasised c label) :=
  decidable_of_iff _ mem_emphasised_iff

variable [Scalar α]

/-- What is drawn of an inequality. The shading is there exactly if a side is claimed, the line is
dashed exactly if its operator is strict, and it is wider exactly if its label is emphasised. -/
structure Draws [Hypot α] (c : Content α) (q : Inequality α) (d : Drawn α) : Prop where
  filled : d.fill.isSome = true ↔ ∃ side, q.solution = .solved (some side)
  fill : ∀ p ∈ d.fill, ∃ side corners, q.solution = .solved (some side) ∧
    q.form.shade (some side) = .ok (some corners) ∧
    p = ⟨corners.map c.view.toScreen, q.color, if Emphasised c q.label then 0.4 else 0.2, .fill⟩
  line : ∃ p r, q.form.boundary = .ok (p, r) ∧
    d.line = ⟨c.view.toScreen p, c.view.toScreen r, q.color,
      if Emphasised c q.label then 3.0 else 2.0, q.form.operator.strict, .boundary⟩
  name : ∀ l ∈ d.name, l.text = q.label ∧ l.color = q.color ∧ l.layer = .label
  equation : q.form.operator = .eq → d.fill = none

/-- What is shown of a corner: its coordinates exactly if it is solved. -/
structure Pins [Exact α] (v : View α) (x : Vertex α) (p : Pinned α) : Prop where
  place : p.marker.place = v.toScreen x.point
  color : p.marker.fill = statusColor x.status
  layer : p.marker.layer = .vertex
  noted : p.note.isSome = true ↔ x.status = .solved
  note : ∀ l ∈ p.note, l.text = coordinates (fixedText 1) x.point ∧ l.layer = .vertex

/-- What is shown of a point that was checked. -/
structure Spots [Exact α] (v : View α) (x : CheckedPoint α) (p : Marker α × Label α) : Prop where
  place : p.1.place = v.toScreen x.point
  color : p.1.fill = if x.ok then Theme.pointOk else Theme.pointBad
  layers : p.1.layer = .point ∧ p.2.layer = .point
  text : p.2.text = coordinates generalText x.point

/-- The parts of a frame are those of what it shows. -/
structure Outline.Shows [Coordinate α] (o : Outline α) (c : Content α) : Prop where
  background : o.background =
    ⟨0.0, 0.0, c.view.width, c.view.height, Theme.background, .background⟩
  scenery : Grid.marks c.view = .ok (o.grid ++ o.axes)
  grid : ∀ m ∈ o.grid, m.layer = .grid
  axes : ∀ m ∈ o.axes, m.layer = .axis
  inequalities : List.Forall₂ (Draws c) c.inequalities o.inequalities
  controls : o.controls.map (fun box => (box.label, box.side)) = Control.choices c.inequalities
  regions : ∀ box ∈ o.controls, box.layer = .region
  /-- What is solved has no box, and equations have none. -/
  closed : ∀ q ∈ c.inequalities, q.solution.isSolved = true ∨ q.form.operator = .eq →
    ∀ box ∈ o.controls, box.label ≠ q.label
  corners : List.Forall₂ (Pins c.view) c.vertices o.corners
  points : List.Forall₂ (Spots c.view) c.checked o.points

/-! ## The parts of a frame -/

theorem exists_name (q : Inequality α) (v : View α) (s t : Pixel α) :
    ∃ name? : Option (Label α), lineName q v s t = (name?.map .label).toList ∧
      ∀ l ∈ name?, l.text = q.label ∧ l.color = q.color ∧ l.layer = .label := by
  unfold lineName
  split
  · exact ⟨none, rfl, fun l hl => by cases hl⟩
  · refine ⟨some _, rfl, fun l hl => ?_⟩
    cases hl
    exact ⟨rfl, rfl, rfl⟩

theorem exists_scenery [Rounding α] {v : View α} {ms : List (Mark α)}
    (h : Grid.marks v = .ok ms) : ∃ grid axes, ms = grid ++ axes ∧
      (∀ m ∈ grid, m.layer = .grid) ∧ ∀ m ∈ axes, m.layer = .axis := by
  obtain ⟨⟨xs, ys⟩, -, h⟩ := bind_ok_iff.1 h
  cases h
  exact ⟨_, _, rfl, fun _ => Grid.layer_of_mem_lines, fun _ => Grid.layer_of_mem_axes⟩

theorem exists_pinned [Exact α] (v : View α) (selected : Option Nat) (i : Nat) (x : Vertex α) :
    ∃ p : Pinned α, vertex v selected i x = p.marks ∧ Pins v x p := by
  simp only [vertex]
  split
  · next solved =>
    refine ⟨⟨_, some _⟩, rfl, rfl, rfl, rfl, iff_of_true rfl solved, fun l hl => ?_⟩
    cases hl
    exact ⟨rfl, rfl⟩
  · next unsolved =>
    exact ⟨⟨_, none⟩, rfl, rfl, rfl, rfl, iff_of_false Bool.false_ne_true unsolved,
      fun l hl => by cases hl⟩

theorem exists_corners [Exact α] (v : View α) (selected : Option Nat) :
    ∀ (xs : List (Vertex α)) (start : Nat), ∃ ps : List (Pinned α),
      ((xs.zipIdx start).map fun (x, i) => vertex v selected i x) = ps.map Pinned.marks ∧
        List.Forall₂ (Pins v) xs ps
  | [], _ => ⟨[], rfl, .nil⟩
  | x :: xs, start => by
    obtain ⟨p, marks, pins⟩ := exists_pinned v selected start x
    obtain ⟨ps, rest, all⟩ := exists_corners v selected xs (start + 1)
    refine ⟨p :: ps, ?_, .cons pins all⟩
    rw [List.zipIdx_cons, List.map_cons, List.map_cons, ← marks, rest]

theorem exists_spot [Exact α] (v : View α) (x : CheckedPoint α) :
    ∃ p : Marker α × Label α, checkedPoint v x = [.marker p.1, .label p.2] ∧ Spots v x p :=
  ⟨(_, _), rfl, rfl, rfl, ⟨rfl, rfl⟩, rfl⟩

theorem exists_points [Exact α] (v : View α) : ∀ xs : List (CheckedPoint α),
    ∃ ps : List (Marker α × Label α),
      xs.flatMap (checkedPoint v) = (ps.flatMap fun (m, l) => [.marker m, .label l]) ∧
        List.Forall₂ (Spots v) xs ps
  | [] => ⟨[], rfl, .nil⟩
  | x :: xs => by
    obtain ⟨p, marks, spots⟩ := exists_spot v x
    obtain ⟨ps, rest, all⟩ := exists_points v xs
    refine ⟨p :: ps, ?_, .cons spots all⟩
    rw [List.flatMap_cons, List.flatMap_cons, marks, rest]

section Doubles
variable {c : Content Float} {q : Inequality Float} {ms : List (Mark Float)}

theorem exists_fill (equation : q.solution = .solved none ↔ q.form.operator = .eq)
    (h : fill q c.view ((emphasised c).contains q.label) = .ok ms) :
    ∃ fill? : Option (Polygon Float), ms = (fill?.map .polygon).toList ∧
      (fill?.isSome = true ↔ ∃ side, q.solution = .solved (some side)) ∧
      ∀ p ∈ fill?, ∃ side corners, q.solution = .solved (some side) ∧
        q.form.shade (some side) = .ok (some corners) ∧
        p = ⟨corners.map c.view.toScreen, q.color, if Emphasised c q.label then 0.4 else 0.2,
          .fill⟩ := by
  unfold fill at h
  cases solution : q.solution with
  | unsolved =>
    rw [solution] at h
    cases h
    exact ⟨none, rfl, by simp, fun p hp => by cases hp⟩
  | solved side? =>
    cases side? with
    | none =>
      rw [solution] at h
      cases h
      exact ⟨none, rfl, by simp, fun p hp => by cases hp⟩
    | some side =>
      rw [solution] at h
      obtain ⟨corners?, shading, h⟩ := bind_ok_iff.1 h
      have region : q.form.operator ≠ .eq := fun eq => by
        have none := equation.2 eq
        rw [solution] at none
        cases none
      obtain ⟨corners, rfl⟩ := LinearForm.exists_shade region shading
      cases h
      refine ⟨some _, rfl, iff_of_true rfl ⟨side, rfl⟩, fun p hp => ?_⟩
      obtain rfl := Option.mem_some.1 hp
      exact ⟨side, corners, rfl, shading, by simp only [mem_emphasised_iff]⟩

theorem exists_draws (equation : q.solution = .solved none ↔ q.form.operator = .eq)
    (h : inequality c.view ((emphasised c).contains q.label) q = .ok ms) :
    ∃ d : Drawn Float, ms = d.marks ∧ Draws c q d := by
  obtain ⟨shading, shaded, h⟩ := bind_ok_iff.1 h
  obtain ⟨⟨p, r⟩, far, h⟩ := bind_ok_iff.1 h
  obtain ⟨fill?, rfl, filled, fill⟩ := exists_fill equation shaded
  obtain ⟨name?, named, name⟩ := exists_name q c.view (c.view.toScreen p) (c.view.toScreen r)
  cases h
  rw [named]
  refine ⟨⟨fill?, _, name?⟩, rfl, filled, fill, ⟨p, r, far, ?_⟩, name, fun eq => ?_⟩
  · simp only [mem_emphasised_iff]
  · rw [← Option.not_isSome_iff_eq_none]
    refine fun there => ?_
    obtain ⟨side, solution⟩ := filled.1 there
    rw [equation.2 eq] at solution
    cases solution

end Doubles

/-- A frame that is painted has exactly the parts it should. -/
theorem exists_outline {c : Content Float} {ms : List (Mark Float)}
    (different : (c.inequalities.map (·.label)).Nodup)
    (equations : ∀ q ∈ c.inequalities, q.solution = .solved none ↔ q.form.operator = .eq)
    (h : marks c = .ok ms) : ∃ o : Outline Float, ms = o.marks ∧ o.Shows c := by
  obtain ⟨scenery, whole, h⟩ := bind_ok_iff.1 h
  obtain ⟨drawn, hd, h⟩ := bind_ok_iff.1 h
  obtain ⟨controls, hc, h⟩ := bind_ok_iff.1 h
  cases h
  obtain ⟨grid, axes, rfl, onGrid, onAxes⟩ := exists_scenery whole
  obtain ⟨ds, rfl, draws⟩ :=
    exists_forall₂_of_mapM (g := Drawn.marks) (fun q hq ms => exists_draws (equations q hq)) hd
  obtain ⟨corners, pinned, pins⟩ := exists_corners c.view c.selected c.vertices 0
  obtain ⟨points, spotted, spots⟩ := exists_points c.view c.checked
  refine ⟨⟨_, grid, axes, ds, controls, corners, points⟩, ?_, {
    background := rfl
    scenery := whole
    grid := onGrid
    axes := onAxes
    inequalities := draws
    controls := Control.map_ofInequalities hc
    regions := fun box hb => ?_
    closed := fun q hq shut box hb => ?_
    corners := pins
    points := spots }⟩
  · rw [pinned, ← List.flatMap_def, ← List.flatMap_def, ← List.flatMap_def, spotted]
    simp only [Outline.marks, List.append_assoc, List.cons_append]
  · obtain ⟨q, -, -, side, made⟩ := Control.exists_ofSide hc hb
    exact Control.layer_of_ofSide made
  · refine Control.label_ne_of_solved different hc hq ?_ hb
    rcases shut with solved | eq
    · exact solved
    · rw [(equations q hq).2 eq]
      rfl

end Scene

namespace Board

/-- A frame of a board that a session can come to has exactly the parts it should, in the order they
are painted. -/
theorem Reachable.scene_outline {b : Board Float} (h : b.Reachable) {ms : List (Mark Float)}
    (shown : b.scene = .ok ms) :
    ∃ o : Scene.Outline Float, ms = o.marks ∧ o.Shows b.content :=
  Scene.exists_outline h.references.different h.references.equations shown

/-- An equation crosses a strict inequality whose side is claimed, the crossing is selected, and
the pointer rests on an inequality that is not solved. -/
def mixed : List (Action Float) :=
  [.add "y > x", .add "x = 1", .add "y <= 3", .chooseRegion "d1" (some "regionA"), .select 0,
    .check ⟨0.0, 2.0⟩, .pointerMove ⟨300.0, 180.0⟩]

theorem scene_outline_of_mixed : ∃ (b : Board Float) (ms : List (Mark Float))
    (o : Scene.Outline Float), b.Reachable ∧ b.hovered = some "d3" ∧ b.selected = some 0 ∧
      b.scene = .ok ms ∧ ms = o.marks ∧ o.Shows b.content ∧
      o.controls.map (fun box => (box.label, box.side)) = [("d3", .regionA), ("d3", .regionB)] ∧
      o.inequalities.length = 3 ∧ o.corners.length = 1 ∧ o.points.length = 1 := by
  obtain ⟨b₀, made, run⟩ := exists_made (p := fun b =>
    let b := b.afterAll mixed
    b.hovered == some "d3" && b.selected == some 0 && b.scene.toOption.isSome &&
      Control.choices b.inequalities == [("d3", .regionA), ("d3", .regionB)] &&
      b.inequalities.length == 3 && b.vertices.length == 1 && b.checked.length == 1)
    (by decide +kernel)
  have reachable := (Reachable.made made).afterAll mixed
  generalize b₀.afterAll mixed = b at run reachable
  simp only [Bool.and_eq_true, beq_iff_eq, Option.isSome_iff_exists] at run
  obtain ⟨⟨⟨⟨⟨⟨hovered, selected⟩, ms, drawn⟩, choices⟩, lines⟩, corners⟩, points⟩ := run
  obtain ⟨o, marks, shows⟩ := reachable.scene_outline (ok_of_toOption drawn)
  exact ⟨b, ms, o, reachable, hovered, selected, ok_of_toOption drawn, marks, shows,
    shows.controls.trans choices, shows.inequalities.length_eq.symm.trans lines,
    shows.corners.length_eq.symm.trans corners, shows.points.length_eq.symm.trans points⟩

end Board
end HalfPlane
