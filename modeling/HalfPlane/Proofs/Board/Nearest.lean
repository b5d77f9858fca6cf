/-
What a pointer is nearest to: the corner that it hits, and the line that it hovers over.

The distances are gone through in order, and the first of the least ones within the radius is taken.
A distance that is no number compares with none: it is within no radius, and what is found does not
depend on it. The search is told by cutting the candidates at the one that was found (`Finds`):
nothing before it is as near, and nothing after it is nearer. One more candidate keeps to this
(`Finds.snoc`), so the search does.
-/
import HalfPlane.Proofs.Double.Shapes
import HalfPlane.Proofs.View.Zooming

namespace HalfPlane
open LawfulCoordinate

/-! ## The order of doubles -/

namespace Double

theorem le_trans {x y z : Float} (h : x ≤ y) (h' : y ≤ z) : x ≤ z := by
  obtain ⟨p, q, hp, hq, h⟩ := le_iff_place.1 (le_iff.1 h)
  obtain ⟨q', r, hq', hr, h'⟩ := le_iff_place.1 (le_iff.1 h')
  rw [hq, Option.some.injEq] at hq'
  subst hq'
  refine le_iff.2 (le_iff_place.2 ⟨p, r, hp, hr, ?_⟩)
  unfold Before at *
  omega

/-- Only numbers compare. -/
theorem le_self_of_le {x y : Float} (h : x ≤ y) : x ≤ x ∧ y ≤ y := by
  obtain ⟨p, q, hp, hq, -⟩ := le_iff_place.1 (le_iff.1 h)
  refine ⟨le_self_iff.2 fun hx => ?_, le_self_iff.2 fun hy => ?_⟩
  · rw [hx] at hp; cases hp
  · rw [hy] at hq; cases hq

/-- Any two numbers compare. -/
theorem le_of_not_le {x y : Float} (hx : x ≤ x) (hy : y ≤ y) (h : ¬ x ≤ y) : y ≤ x := by
  by_cases lt : y < x
  · exact le_of_lt lt
  · exact absurd (le_of_not_lt hy hx lt) h

/-- What is infinitely far stays so on a screen of any zoom. -/
theorem infinite_mul {z : Float} (pos : 0.0 < z) : 1.0 / 0.0 * z = 1.0 / 0.0 := by
  have infinite : unpacked (1.0 / 0.0) = .infinity .positive := rfl
  rw [lt_iff, lt_iff_place, unpacked_zero] at pos
  rw [mul_eq, infinite]
  generalize unpacked z = u at pos ⊢
  rcases u with (_ | _) | _ | (_ | _) | ⟨_ | _, m, e, hm⟩ <;>
    first
    | rfl
    | (exfalso; simp [place, Before] at pos)

end Double
open Double

/-! ## The search -/

section Search
variable {β : Type} {radius : Float} {candidates : List (Float × β)}

/-- The result of a search among these candidates: nothing if none is within the radius, or else one
that nothing before it is as near as and nothing after it is nearer than. -/
inductive Finds (radius : Float) (candidates : List (Float × β)) : Option (Float × β) → Prop where
  | nothing (far : ∀ c ∈ candidates, ¬ c.1 ≤ radius) : Finds radius candidates none
  | found {before after : List (Float × β)} {c : Float × β}
      (cut : candidates = before ++ c :: after) (near : c.1 ≤ radius)
      (first : ∀ b ∈ before, ¬ b.1 ≤ c.1) (least : ∀ a ∈ after, ¬ a.1 < c.1) :
      Finds radius candidates (some c)

/-- What is found with one more candidate. -/
theorem Finds.snoc {best : Option (Float × β)} (h : Finds radius candidates best) (x : Float × β) :
    Finds radius (candidates ++ [x])
      (if x.1 ≤ radius && best.all (fun b => decide (x.1 < b.1)) then some x else best) := by
  simp only [Bool.and_eq_true, decide_eq_true_eq]
  cases h with
  | nothing far =>
    by_cases near : x.1 ≤ radius
    · rw [if_pos ⟨near, rfl⟩]
      exact .found rfl near (fun b hb as_near => far b hb (le_trans as_near near)) (by simp)
    · rw [if_neg fun taken => near taken.1]
      refine .nothing fun c hc => ?_
      rcases List.mem_append.1 hc with hc | hc
      · exact far c hc
      · rw [List.mem_singleton.1 hc]
        exact near
  | @found before after c cut near first least =>
    simp only [Option.all_some, decide_eq_true_eq]
    by_cases nearer : x.1 < c.1
    · -- Nothing so far is as near as what is nearer than the nearest so far.
      have within : x.1 ≤ radius := le_of_lt (lt_of_lt_of_le nearer near)
      rw [if_pos ⟨within, nearer⟩]
      refine .found rfl within (fun b hb as_near => ?_) (by simp)
      have closer : b.1 < c.1 := lt_of_le_of_lt as_near nearer
      rw [cut, List.mem_append, List.mem_cons] at hb
      rcases hb with hb | rfl | hb
      · exact first b hb (le_of_lt closer)
      · exact lt_irrefl _ closer
      · exact least b hb closer
    · rw [if_neg fun taken => nearer taken.2]
      have cut' : candidates ++ [x] = before ++ c :: (after ++ [x]) := by
        rw [cut, List.append_assoc]
        rfl
      refine .found cut' near first fun a ha => ?_
      rcases List.mem_append.1 ha with ha | ha
      · exact least a ha
      · rw [List.mem_singleton.1 ha]
        exact nearer

theorem finds_closest? (radius : Float) (candidates : List (Float × β)) :
    Finds radius candidates (closest? radius candidates) := by
  induction candidates using List.reverseRecOn with
  | nil => exact .nothing fun c hc => by cases hc
  | append_singleton candidates x ih =>
    rw [closest?, List.foldl_append]
    exact ih.snoc x

/-- The places of the least distance, if it is within the radius. What is no number is not
counted. -/
def nearest (radius : Float) (distances : List Float) : Set Nat :=
  {i | ∃ d, distances[i]? = some d ∧ d ≤ radius ∧ ∀ e ∈ distances, e ≤ e → d ≤ e}

/-- What is found is at the first place of the least distance. -/
theorem Finds.isLeast {c : Float × β} (h : Finds radius candidates (some c)) :
    ∃ i, IsLeast (nearest radius (candidates.map (·.1))) i ∧ candidates[i]? = some c := by
  cases h with
  | @found before after _ cut near first least =>
    have number := (le_self_of_le near).1
    have here : candidates[before.length]? = some c := by
      rw [cut, List.getElem?_append_right (Nat.le_refl _), Nat.sub_self]
      rfl
    refine ⟨before.length, ⟨⟨c.1, ?_, near, ?_⟩, ?_⟩, here⟩
    · rw [List.getElem?_map, here]
      rfl
    · intro e he numbered
      rw [cut, List.map_append, List.map_cons, List.mem_append, List.mem_cons] at he
      rcases he with he | rfl | he
      · obtain ⟨b, hb, rfl⟩ := List.mem_map.1 he
        exact le_of_not_le numbered number (first b hb)
      · exact number
      · obtain ⟨a, ha, rfl⟩ := List.mem_map.1 he
        exact le_of_not_lt numbered number (least a ha)
    · -- Before it everything is further off, so there is no least distance.
      rintro j ⟨d, there, -, lowest⟩
      by_contra earlier
      rw [cut, List.getElem?_map, List.getElem?_append_left (by omega),
        Option.map_eq_some_iff] at there
      obtain ⟨b, hb, rfl⟩ := there
      refine first b (List.mem_of_getElem? hb) (lowest c.1 ?_ number)
      rw [cut]
      simp

theorem closest?_eq_none_iff :
    closest? radius candidates = none ↔ ∀ c ∈ candidates, ¬ c.1 ≤ radius := by
  have finds := finds_closest? radius candidates
  constructor
  · intro none
    rw [none] at finds
    cases finds with
    | nothing far => exact far
  · intro far
    cases found : closest? radius candidates with
    | none => rfl
    | some c =>
      rw [found] at finds
      cases finds with
      | found cut near => exact absurd near (far c (by rw [cut]; simp))

theorem closest?_eq_some_iff {c : Float × β} :
    closest? radius candidates = some c ↔
      ∃ i, IsLeast (nearest radius (candidates.map (·.1))) i ∧ candidates[i]? = some c := by
  have finds := finds_closest? radius candidates
  constructor
  · intro found
    rw [found] at finds
    exact finds.isLeast
  · rintro ⟨i, least, here⟩
    cases found : closest? radius candidates with
    | none =>
      obtain ⟨d, there, near, -⟩ := least.1
      rw [List.getElem?_map, here] at there
      cases there
      exact absurd near (closest?_eq_none_iff.1 found c (List.mem_of_getElem? here))
    | some c' =>
      rw [found] at finds
      obtain ⟨j, least', here'⟩ := finds.isLeast
      rw [← least.unique least', here] at here'
      rw [here']

end Search

/-! ## Corners -/

namespace Vertex
variable {vertices : List (Vertex Float)} {v : View Float} {s : Pixel Float} {radius : Float}

theorem at?_eq :
    at? vertices v s radius =
      (closest? radius (vertices.mapIdx fun i w => (w.pixelDistance v s, i))).map (·.2) := by
  rw [List.mapIdx_eq_zipIdx_map]
  rfl

theorem at?_eq_none_iff :
    at? vertices v s radius = none ↔ ∀ w ∈ vertices, ¬ w.pixelDistance v s ≤ radius := by
  rw [at?_eq, Option.map_eq_none_iff, closest?_eq_none_iff]
  constructor
  · intro far w hw
    obtain ⟨i, hi, rfl⟩ := List.getElem_of_mem hw
    exact far (vertices[i].pixelDistance v s, i) (List.mem_mapIdx.2 ⟨i, hi, rfl⟩)
  · intro far c hc
    obtain ⟨i, hi, rfl⟩ := List.mem_mapIdx.1 hc
    exact far vertices[i] (List.getElem_mem hi)

theorem at?_eq_some_iff {i : Nat} :
    at? vertices v s radius = some i ↔
      IsLeast (nearest radius (vertices.map (·.pixelDistance v s))) i := by
  have distances : (vertices.mapIdx fun i w => (w.pixelDistance v s, i)).map (·.1) =
      vertices.map (·.pixelDistance v s) := by
    refine List.ext_getElem? fun j => ?_
    rw [List.getElem?_map, List.getElem?_mapIdx, List.getElem?_map, Option.map_map]
    rfl
  rw [at?_eq, Option.map_eq_some_iff]
  simp only [closest?_eq_some_iff, distances, List.getElem?_mapIdx]
  constructor
  · rintro ⟨c, ⟨j, least, here⟩, rfl⟩
    obtain ⟨w, -, rfl⟩ := Option.map_eq_some_iff.1 here
    exact least
  · intro least
    obtain ⟨d, there, -⟩ := least.1
    rw [List.getElem?_map, Option.map_eq_some_iff] at there
    obtain ⟨w, hw, -⟩ := there
    exact ⟨(w.pixelDistance v s, i), ⟨i, least, by rw [hw]; rfl⟩, rfl⟩

end Vertex

/-! ## Lines -/

/-- How far a point is from the line of a form: infinitely far if the form has none. -/
def LinearForm.distance (f : LinearForm Float) (p : Point Float) : Float :=
  (f.distance? p).getD (1.0 / 0.0)

theorem View.Clamped.zero_lt_zoom {v : View Float} {minZoom maxZoom : Float}
    (h : v.Clamped minZoom maxZoom) (positive : 0.0 < minZoom) (range : minZoom ≤ maxZoom) :
    0.0 < v.zoom :=
  lt_of_lt_of_le positive (h.within positive range).1

namespace Board
variable {b : Board Float} {s : Pixel Float}

/-- How far the line of an inequality is from a point of the screen, in pixels. -/
def lineDistance (b : Board Float) (s : Pixel Float) (q : Inequality Float) : Float :=
  q.form.distance (b.view.toPlane s) * b.view.zoom

/-- A form without a line is never hovered, as if its line were infinitely far. -/
theorem hovered_eq (zoom : 0.0 < b.view.zoom) :
    (b.hover s).2.hovered =
      (closest? hoverDistance (b.inequalities.map fun q => (b.lineDistance s q, q.label))).map
        (·.2) := by
  have far : ¬ (1.0 / 0.0 : Float) ≤ hoverDistance := by decide +kernel
  show (closest? hoverDistance (b.lineDistances s)).map (·.2) = _
  congr 1
  unfold closest? lineDistances
  rw [List.foldl_filterMap, List.foldl_map]
  congr 1
  funext best q
  cases reached : q.form.distance? (b.view.toPlane s) with
  | some d =>
    simp only [lineDistance, LinearForm.distance, reached, Option.map_some, Option.getD_some]
  | none =>
    simp only [lineDistance, LinearForm.distance, reached, Option.map_none, Option.getD_none,
      infinite_mul zoom, far, decide_false, Bool.false_and, Bool.false_eq_true, if_false]

theorem hovered_eq_none_iff (zoom : 0.0 < b.view.zoom) :
    (b.hover s).2.hovered = none ↔
      ∀ q ∈ b.inequalities, ¬ b.lineDistance s q ≤ hoverDistance := by
  rw [hovered_eq zoom, Option.map_eq_none_iff, closest?_eq_none_iff]
  exact List.forall_mem_map

theorem hovered_eq_some_iff (zoom : 0.0 < b.view.zoom) {label : String} :
    (b.hover s).2.hovered = some label ↔
      ∃ i q, IsLeast (nearest hoverDistance (b.inequalities.map (b.lineDistance s))) i ∧
        b.inequalities[i]? = some q ∧ q.label = label := by
  have distances : (b.inequalities.map fun q => (b.lineDistance s q, q.label)).map (·.1) =
      b.inequalities.map (b.lineDistance s) := by
    rw [List.map_map]
    rfl
  rw [hovered_eq zoom, Option.map_eq_some_iff]
  simp only [closest?_eq_some_iff, distances, List.getElem?_map, Option.map_eq_some_iff]
  constructor
  · rintro ⟨c, ⟨i, least, q, hq, rfl⟩, rfl⟩
    exact ⟨i, q, least, hq, rfl⟩
  · rintro ⟨i, q, least, hq, rfl⟩
    exact ⟨(b.lineDistance s q, q.label), ⟨i, least, q, hq, rfl⟩, rfl⟩

/-- A pointer hits the first corner of those nearest to it, if one is within the radius, and hovers
over the first line of those nearest to it, if one is near enough. Distances that are no numbers are
passed over. The zoom of a window is always positive (`View.Clamped.zero_lt_zoom`). -/
theorem nearest_pointed_at (vertices : List (Vertex Float)) (v : View Float) (s : Pixel Float)
    (radius : Float) {b : Board Float} (zoom : 0.0 < b.view.zoom) :
    ((Vertex.at? vertices v s radius = none ↔
        ∀ w ∈ vertices, ¬ w.pixelDistance v s ≤ radius) ∧
      ∀ i, Vertex.at? vertices v s radius = some i ↔
        IsLeast (nearest radius (vertices.map (·.pixelDistance v s))) i) ∧
    ((b.hover s).2.hovered = none ↔
      ∀ q ∈ b.inequalities, ¬ b.lineDistance s q ≤ hoverDistance) ∧
    ∀ label, (b.hover s).2.hovered = some label ↔
      ∃ i q, IsLeast (nearest hoverDistance (b.inequalities.map (b.lineDistance s))) i ∧
        b.inequalities[i]? = some q ∧ q.label = label :=
  ⟨⟨Vertex.at?_eq_none_iff, fun _ => Vertex.at?_eq_some_iff⟩, hovered_eq_none_iff zoom,
    fun _ => hovered_eq_some_iff zoom⟩

/-- At the point (2, 2): a line whose distance is no number, a form without a line, and two lines
that are five pixels away. -/
def crowdedLines : List (Inequality Float) :=
  [(⟨1e308, -1e308, 0.0, .gt⟩, "d1"), (⟨0.0, 0.0, 1.0, .gt⟩, "d2"), (⟨1.0, 0.0, -2.125, .ge⟩, "d3"),
    (⟨0.0, 1.0, -1.875, .lt⟩, "d4")].map
    fun p : LinearForm Float × String => ⟨p.1, p.2, "", "", "", .unsolved⟩

/-- A corner without a place, one that is too far away, and two that are five pixels away. -/
def crowdedCorners : List (Vertex Float) :=
  [⟨0.0 / 0.0, 2.0⟩, ⟨5.0, 5.0⟩, ⟨2.125, 2.0⟩, ⟨2.0, 1.875⟩].map
    fun p : Point Float => ⟨p, p, .unsolved, ("d3", "d4")⟩

theorem nearest_pointed_at_of_crowd : ∃ b : Board Float,
    0.0 < b.view.zoom ∧ b.inequalities = crowdedLines ∧
    IsLeast (nearest 8.0 (crowdedCorners.map (·.pixelDistance b.view ⟨380.0, 220.0⟩))) 2 ∧
    Vertex.at? crowdedCorners b.view ⟨380.0, 220.0⟩ (0.0 / 0.0) = none ∧
    ∃ i q, IsLeast (nearest hoverDistance (crowdedLines.map (b.lineDistance ⟨380.0, 220.0⟩))) i ∧
      crowdedLines[i]? = some q ∧ q.label = "d3" := by
  obtain ⟨b, made, run⟩ := exists_made (p := fun b =>
    ({ b with inequalities := crowdedLines }.hover ⟨380.0, 220.0⟩).2.hovered == some "d3" &&
      Vertex.at? crowdedCorners b.view ⟨380.0, 220.0⟩ 8.0 == some 2) (by decide +kernel)
  simp only [Bool.and_eq_true, beq_iff_eq] at run
  obtain ⟨hovered, hit⟩ := run
  have zoom : 0.0 < b.view.zoom :=
    (Reachable.made made).sound.usual.clamped.zero_lt_zoom zero_lt_minZoom minZoom_le_maxZoom
  obtain ⟨⟨-, corner⟩, -, line⟩ :=
    nearest_pointed_at crowdedCorners b.view ⟨380.0, 220.0⟩ 8.0
      (b := { b with inequalities := crowdedLines }) zoom
  obtain ⟨⟨missed, -⟩, -⟩ :=
    nearest_pointed_at crowdedCorners b.view ⟨380.0, 220.0⟩ (0.0 / 0.0) (b := b) zoom
  refine ⟨{ b with inequalities := crowdedLines }, zoom, rfl, (corner 2).1 hit,
    missed.2 fun w _ => ?_, (line "d3").1 hovered⟩
  exact fun within => absurd (le_self_of_le within).2 (by decide +kernel)

end Board
end HalfPlane
