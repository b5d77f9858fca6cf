/-
What stays when the corners of a board are worked out again.

A corner takes over the status of the first old corner near it, and near is not the same. But the
corners of a board are apart, the old ones and the new ones. So an old corner whose point is still
there is the only one that it continues, and no other new corner continues it: it keeps its status,
and the selection if it had it (`Sound.kept`). If the same inequalities are solved as before, all
corners are still there and nothing changes (`Sound.unchanged`).

The actions that work the corners out again are those in `Recasts`: casting, removing and claiming,
and a click on a box, also one that ends a press.
-/
import HalfPlane.Proofs.Board.Activity
import HalfPlane.Proofs.Double.Finite

namespace HalfPlane
open Scalar

/-- Whether two points compare equal. -/
def Point.same {α : Type} [Scalar α] (p q : Point α) : Bool :=
  Scalar.same p.x q.x && Scalar.same p.y q.y

def Point.Finite (p : Point Float) : Prop := p.x.isFinite = true ∧ p.y.isFinite = true

/-! ## Corners as points -/

theorem Point.Finite.near_self {p : Point Float} (h : p.Finite) : p.near p = true := by
  rw [near, Double.negligible_sub_self h.1, Double.negligible_sub_self h.2]
  rfl

theorem Vertex.eq_of_corner {α : Type} {v w : Vertex α} (hv : v.target = v.point)
    (hw : w.target = w.point) (corner : v.corner = w.corner) (status : v.status = w.status) :
    v = w := by
  have point : v.point = w.point := congrArg Corner.point corner
  have lines : v.lines = w.lines := congrArg Corner.lines corner
  cases v
  cases w
  simp only [Vertex.mk.injEq] at *
  exact ⟨point, hv.trans (point.trans hw.symm), status, lines⟩

theorem Corner.exists_crossing {α : Type} [Scalar α] [Hypot α] {qs : List (Inequality α)}
    {corners : List (Corner α)} (h : ofInequalities qs = .ok corners) {c : Corner α}
    (hc : c ∈ corners) : ∃ f g : LinearForm α, f.crossing g = some c.point := by
  obtain ⟨found, rfl, progress⟩ := exists_progress h
  obtain ⟨x, hx, rfl⟩ := List.mem_map.1 hc
  obtain ⟨q, r, -, crossing, -⟩ := progress.formed x hx
  exact ⟨q.form, r.form, crossing⟩

/-- The coordinates of a crossing are sums with zero, so no negative zero is among them. -/
theorem LinearForm.eq_of_crossing {f g f' g' : LinearForm Float} {p q : Point Float}
    (hp : f.crossing g = some p) (hq : f'.crossing g' = some q) (same : p.same q = true) :
    p = q := by
  unfold crossing at hp hq
  dsimp only at hp hq
  split at hp
  · cases hp
  · split at hq
    · cases hq
    · cases hp
      cases hq
      rw [Point.same, Bool.and_eq_true] at same
      rw [Double.eq_of_same same.1, Double.eq_of_same same.2]

namespace Board
variable {α : Type}

/-! ## Actions that work the corners out again -/

section Actions
variable [Scalar α] [Hypot α]

/-- A click here claims a side: it hits no corner, but a box. -/
def HitsBox (b : Board α) (s : Pixel α) : Prop :=
  Vertex.at? b.vertices b.view s Vertex.hitRadius = none ∧
    ∃ controls c, Control.ofInequalities b.view b.inequalities = .ok controls ∧
      Control.at? controls s = some c

/-- Where a release clicks, if the press never became a drag. -/
def releasedAt (b : Board α) (s : Pixel α) : Option (Pixel α) :=
  if b.pointer.press.isSome && !b.pointer.dragging then some s else none

/-- Where an action clicks. -/
def clickedAt (b : Board α) : Action α → Option (Pixel α)
  | .click s => some s
  | .pointerUp s => b.releasedAt s
  | .touchEnd _ =>
    match b.pointer.pinch, b.pointer.last with
    | none, some s => b.releasedAt s
    | _, _ => none
  | _ => none

/-- The actions after which the corners are worked out again, unless they fail. -/
inductive Recasts (b : Board α) : Action α → Prop where
  | add (text : String) : Recasts b (.add text)
  | remove (label : String) : Recasts b (.remove label)
  | clearChoice (label : String) : Recasts b (.clearChoice label)
  | chooseRegion (label : String) (side : Option String) : Recasts b (.chooseRegion label side)
  | click {a : Action α} {s : Pixel α} : b.clickedAt a = some s → b.HitsBox s → Recasts b a

/-- The corners were left alone, or worked out again for what is now on the board. -/
inductive Refreshed (b b' : Board α) : Prop where
  | same : b'.vertices = b.vertices → b'.selected = b.selected → Refreshed b b'
  | again {corners : List (Corner α)} : Corner.ofInequalities b'.inequalities = .ok corners →
      b'.vertices = refreshedVertices b.vertices corners →
      b'.selected = selectionOf b.vertices b.selected corners → Refreshed b b'

theorem refreshed_of_refreshAndSay {b c : Board α} (vertices : c.vertices = b.vertices)
    (selected : c.selected = b.selected) (f : Feedback) : Refreshed b (c.refreshAndSay f).2 := by
  unfold refreshAndSay refreshed
  cases found : Corner.ofInequalities c.inequalities with
  | error e => exact .same vertices selected
  | ok corners =>
    refine .again found ?_ ?_
    · rw [← vertices]; rfl
    · rw [← vertices, ← selected]; rfl

theorem refreshed_add [Exact α] (b : Board α) (text : String) : Refreshed b (b.add text).2 := by
  unfold add
  split
  · exact .same rfl rfl
  · dsimp only
    split
    · exact .same rfl rfl
    · split
      · exact .same rfl rfl
      · exact .same rfl rfl
      · split
        · exact .same rfl rfl
        · apply refreshed_of_refreshAndSay <;> rfl

theorem refreshed_remove (b : Board α) (label : String) : Refreshed b (b.remove label).2 := by
  unfold remove
  split
  · exact .same rfl rfl
  · apply refreshed_of_refreshAndSay <;> rfl

theorem refreshed_clearChoice (b : Board α) (label : String) :
    Refreshed b (b.clearChoice label).2 := by
  unfold clearChoice
  split
  · exact .same rfl rfl
  · split
    · exact .same rfl rfl
    · apply refreshed_of_refreshAndSay <;> rfl

theorem refreshed_chooseRegion (b : Board α) (label : String) (side : Option String) :
    Refreshed b (b.chooseRegion label side).2 := by
  unfold chooseRegion
  split
  · exact .same rfl rfl
  · split
    · exact .same rfl rfl
    · split
      · exact .same rfl rfl
      · dsimp only
        split
        · exact .same rfl rfl
        · apply refreshed_of_refreshAndSay <;> rfl

theorem refreshed_click {s : Pixel α} (h : b.HitsBox s) : Refreshed b (b.click s).2 := by
  obtain ⟨missed, controls, c, boxes, hit⟩ := h
  simp only [click, missed, boxes, hit]
  exact refreshed_chooseRegion b c.label (some c.side.name)

end Actions

section Clicks
variable [Coordinate α] {b : Board α}

/-- A board when a press has ended. -/
def released (b : Board α) : Board α :=
  { b with pointer := { b.pointer with press := none, last := none, dragging := false } }

theorem pointerUp_eq (b : Board α) (s : Pixel α) :
    b.pointerUp s =
      match b.releasedAt s with
      | some s => b.released.click s
      | none => (.ok none, b.released) := by
  unfold pointerUp releasedAt
  cases b.pointer.press.isSome && !b.pointer.dragging <;> rfl

/-- An action that clicks is a click on the board, or on the board when its press has ended. -/
theorem after_of_clickedAt {a : Action α} {s : Pixel α} (h : b.clickedAt a = some s) :
    b.after a = (b.click s).2 ∨ b.after a = (b.released.click s).2 := by
  cases a with
  | click t =>
    cases h
    exact .inl rfl
  | pointerUp t =>
    right
    show (b.pointerUp t).2 = _
    rw [pointerUp_eq, show b.releasedAt t = some s from h]
  | touchEnd touches =>
    right
    simp only [clickedAt] at h
    split at h
    · next pinch last =>
      show (b.touchEnd touches).2 = _
      simp only [touchEnd, pinch, last]
      rw [pointerUp_eq, h]
    · cases h
  | _ => cases h

theorem after_refreshed {a : Action α} (h : b.Recasts a) : Refreshed b (b.after a) := by
  cases h with
  | add text => exact refreshed_add b text
  | remove label => exact refreshed_remove b label
  | clearChoice label => exact refreshed_clearChoice b label
  | chooseRegion label side => exact refreshed_chooseRegion b label side
  | @click _ s clicked hits =>
    rcases after_of_clickedAt clicked with h | h <;> rw [h]
    · exact refreshed_click hits
    · have hits' : b.released.HitsBox s := hits
      cases refreshed_click hits' with
      | same vertices selected => exact .same vertices selected
      | again found vertices selected => exact .again found vertices selected

end Clicks

/-! ## Corners that are still there -/

section Kept
variable [Coordinate α] [LawfulCoordinate α] {b b' : Board α} {i j : Nat} {v w : Vertex α}

/-- An old corner is the only one that its own point continues. -/
theorem Sound.continued_self (sound : b.Sound) (hv : b.vertices[i]? = some v)
    (near : v.point.near v.point = true) : continued b.vertices v.point = some (v, i) := by
  cases found : continued b.vertices v.point with
  | none =>
    have far := List.find?_eq_none.1 found (v, i) (List.mem_zipIdx_iff_getElem?.2 hv)
    exact absurd near far
  | some old =>
    obtain ⟨old, s⟩ := old
    have index : i = s := sound.coherent.index_of_continued (v := v) (w := v) hv rfl found
    subst index
    have same := (continued_some found).1.symm.trans hv
    rw [Option.some.inj same]

/-- Corners with one point, on a board, are one corner. -/
theorem Sound.index_eq (sound : b.Sound) (hv : b.vertices[i]? = some v)
    (hw : b.vertices[j]? = some w) (same : v.point = w.point)
    (near : v.point.near v.point = true) : i = j := by
  by_cases ne : i = j
  · exact ne
  · have far := sound.coherent.not_near ne hv hw
    rw [← same, near] at far
    cases far

/-- A corner that is still there keeps its status, and it is selected if it was. -/
theorem Sound.kept (sound : b.Sound) (h : Refreshed b b')
    (hv : b.vertices[i]? = some v) (hw : b'.vertices[j]? = some w) (same : v.point = w.point)
    (near : v.point.near v.point = true) :
    w.status = v.status ∧ (b'.selected = some j ↔ b.selected = some i) := by
  cases h with
  | same vertices selected =>
    rw [vertices] at hw
    obtain rfl := sound.index_eq hv hw same near
    rw [hv, Option.some.injEq] at hw
    subst hw
    exact ⟨rfl, by rw [selected]⟩
  | @again corners found vertices selected =>
    rw [vertices] at hw
    obtain ⟨c, hc, rfl⟩ := getElem?_refreshed hw
    have same : v.point = c.point := same
    have self := sound.continued_self hv near
    rw [same] at self
    refine ⟨status_vertexOf self, ?_⟩
    rw [selected]
    constructor
    · intro hj
      obtain ⟨s, d, old, hs, hd, fromOld⟩ := continued_of_selectionOf hj
      rw [hc, Option.some.injEq] at hd
      subst hd
      rw [self, Option.some.injEq, Prod.mk.injEq] at fromOld
      rw [hs, fromOld.2]
    · intro hi
      obtain ⟨k, hk⟩ := selectionOf_isSome hc self
      obtain ⟨s, d, old, hs, hd, fromOld⟩ := continued_of_selectionOf hk
      cases hs
      -- The corner selected now is near the old one, so it is none but the one at its point.
      have nearOld := (continued_some fromOld).2
      rw [Option.some.inj ((continued_some fromOld).1.symm.trans hv), same] at nearOld
      have index : j = k := by
        by_cases ne : j = k
        · exact ne
        · have far := (Corner.ofInequalities_apart found).not_near ne hc hd
          rw [nearOld] at far
          cases far
      rw [hi, hk, index]

/-- With the same inequalities solved as before nothing about the corners changes. -/
theorem Sound.unchanged (sound : b.Sound) (sound' : b'.Sound) (h : Refreshed b b')
    (near : ∀ v ∈ b.vertices, v.point.near v.point = true)
    (solved : solvedOf b'.inequalities = solvedOf b.inequalities) :
    b'.vertices = b.vertices ∧ b'.selected = b.selected := by
  have corners : b'.vertices.map Vertex.corner = b.vertices.map Vertex.corner := by
    have before := sound.coherent.corners
    have after := sound'.coherent.corners
    have again : Corner.ofInequalities b'.inequalities = Corner.ofInequalities b.inequalities :=
      congrArg (fun qs => (pairsWithOthers qs).foldlM Corner.extend []) solved
    exact Except.ok.inj (after.symm.trans (again.trans before))
  have kept : ∀ {i v w}, b.vertices[i]? = some v → b'.vertices[i]? = some w →
      w = v ∧ (b'.selected = some i ↔ b.selected = some i) := by
    intro i v w hv hw
    have corner : w.corner = v.corner := by
      have atBefore := getElem?_map_corner hv
      rw [← corners, getElem?_map_corner hw] at atBefore
      exact Option.some.inj atBefore
    have point : w.point = v.point := congrArg Corner.point corner
    have member := List.mem_of_getElem? hv
    obtain ⟨status, selected⟩ := sound.kept h hv hw point.symm (near v member)
    refine ⟨?_, selected⟩
    exact Vertex.eq_of_corner (sound'.coherent.targets w (List.mem_of_getElem? hw))
      (sound.coherent.targets v member) corner status
  have length : b'.vertices.length = b.vertices.length := by
    have := congrArg List.length corners
    rwa [List.length_map, List.length_map] at this
  refine ⟨List.ext_getElem length fun i hi' hi => ?_, Option.ext fun i => ?_⟩
  · exact (kept (List.getElem?_eq_getElem hi) (List.getElem?_eq_getElem hi')).1
  · constructor
    · intro hi'
      obtain ⟨w, hw, -⟩ := sound'.coherent.selected i hi'
      have inside : i < b.vertices.length := length ▸ (List.getElem?_eq_some_iff.1 hw).1
      exact (kept (List.getElem?_eq_getElem inside) hw).2.1 hi'
    · intro hi
      obtain ⟨v, hv, -⟩ := sound.coherent.selected i hi
      have inside : i < b'.vertices.length := length ▸ (List.getElem?_eq_some_iff.1 hv).1
      exact (kept hv (List.getElem?_eq_getElem inside)).2.2 hi

end Kept

/-! ## Actions that leave the solved inequalities alone -/

section Spared
variable {qs : List (Inequality α)} {q : Inequality α} {label : String}

theorem claimed_same (found : qs.find? (fun q => q.label == label) = some q) :
    claimed label q.solution qs = qs := by
  induction qs with
  | nil => cases found
  | cons r qs ih =>
    unfold claimed
    split
    · next same =>
      rw [List.find?_cons_of_pos (by simpa using same)] at found
      cases found
      rfl
    · next other =>
      rw [List.find?_cons_of_neg (by simpa using other)] at found
      rw [ih found]

theorem solvedOf_eraseP (found : qs.find? (fun q => q.label == label) = some q)
    (unsolved : q.solution.isSolved = false) :
    solvedOf (qs.eraseP fun q => q.label == label) = solvedOf qs := by
  induction qs with
  | nil => cases found
  | cons r qs ih =>
    by_cases same : (r.label == label) = true
    · rw [List.find?_cons_of_pos (by exact same)] at found
      cases found
      rw [List.eraseP_cons_of_pos (by exact same)]
      simp [solvedOf, unsolved]
    · rw [List.find?_cons_of_neg (by exact same)] at found
      rw [List.eraseP_cons_of_neg (by exact same)]
      have rest := ih found
      unfold solvedOf at rest ⊢
      rw [List.filter_cons, List.filter_cons, rest]

variable [Scalar α]

/-- Actions on what is not solved, and claims made again. -/
inductive Spares (b : Board α) : Action α → Prop where
  | add {text : String} :
      (∀ form : LinearForm α, LinearForm.ofText? text = some form → form.operator ≠ .eq) →
      Spares b (.add text)
  | remove {label : String} {q : Inequality α} : b.find? label = some q →
      q.solution = .unsolved → Spares b (.remove label)
  | clearChoice {label : String} {q : Inequality α} : b.find? label = some q →
      q.solution = .unsolved → Spares b (.clearChoice label)
  | chooseRegion {label : String} {q : Inequality α} {side : Side} : b.find? label = some q →
      q.solution = .solved (some side) → Spares b (.chooseRegion label (some side.name))

theorem inequalities_refreshAndSay [Hypot α] (b : Board α) (f : Feedback) :
    (b.refreshAndSay f).2.inequalities = b.inequalities := by
  unfold refreshAndSay refreshed
  cases Corner.ofInequalities b.inequalities <;> rfl

end Spared

section Spared
variable [Coordinate α] {b : Board α}

theorem Sound.solvedOf_add (sound : b.Sound) {text : String}
    (region : ∀ form : LinearForm α, LinearForm.ofText? text = some form → form.operator ≠ .eq) :
    solvedOf (b.add text).2.inequalities = solvedOf b.inequalities := by
  have read := sound.honest.read_form text
  unfold add
  split
  · rfl
  · dsimp only
    rw [read]
    split
    · rfl
    · next form reads =>
      split
      · rfl
      · rfl
      · split
        · rfl
        · next q entered =>
          obtain ⟨-, -, start, -⟩ := Register.enter_ok entered
          have unsolved : q.solution.isSolved = false := by
            rw [start]
            have := region form reads
            cases operator : form.operator <;> first | rfl | exact absurd operator this
          rw [inequalities_refreshAndSay]
          simp [solvedOf, unsolved]

theorem Sound.solvedOf_after (sound : b.Sound) {a : Action α} (h : b.Spares a) :
    solvedOf (b.after a).inequalities = solvedOf b.inequalities := by
  cases h with
  | add region => exact sound.solvedOf_add region
  | @remove label q found unsolved =>
    show solvedOf (b.remove label).2.inequalities = _
    simp only [Board.remove, get_found found, inequalities_refreshAndSay]
    exact solvedOf_eraseP found (by rw [unsolved]; rfl)
  | @clearChoice label q found unsolved =>
    show solvedOf (b.clearChoice label).2.inequalities = _
    have same := claimed_same found
    rw [unsolved] at same
    simp only [Board.clearChoice, get_found found]
    split
    · rfl
    · rw [inequalities_refreshAndSay]
      exact congrArg solvedOf same
  | @chooseRegion label q side found claimed =>
    show solvedOf (b.chooseRegion label (some side.name)).2.inequalities = _
    have same := claimed_same found
    rw [claimed] at same
    simp only [Board.chooseRegion, get_found found, Side.ofName_name]
    split
    · rfl
    · split
      · exact congrArg solvedOf same
      · rw [inequalities_refreshAndSay]
        exact congrArg solvedOf same

end Spared

/-! ## Boards of doubles -/

/-- Corners that compare equal, on boards, have the same point. -/
theorem Sound.point_eq {b b' : Board Float} (sound : b.Sound) (sound' : b'.Sound) {i j : Nat}
    {v w : Vertex Float} (hv : b.vertices[i]? = some v) (hw : b'.vertices[j]? = some w)
    (same : v.point.same w.point = true) : v.point = w.point := by
  obtain ⟨f, g, hf⟩ := Corner.exists_crossing sound.coherent.corners
    (List.mem_map_of_mem (List.mem_of_getElem? hv))
  obtain ⟨f', g', hf'⟩ := Corner.exists_crossing sound'.coherent.corners
    (List.mem_map_of_mem (List.mem_of_getElem? hw))
  exact LinearForm.eq_of_crossing hf hf' same

/-- When the corners are worked out again, each finite one that is still there keeps its status, and
is selected if it was. If the solved inequalities are the same, nothing about the corners changes;
so it is when what is not solved comes and goes, and when a claim is made again. -/
theorem Reachable.corners_stay {b : Board Float} (h : b.Reachable) {a : Action Float}
    (recasts : b.Recasts a) :
    (∀ (i j : Nat) (v w : Vertex Float), b.vertices[i]? = some v →
      (b.after a).vertices[j]? = some w → v.point.Finite → v.point.same w.point = true →
      w.status = v.status ∧ ((b.after a).selected = some j ↔ b.selected = some i)) ∧
    ((∀ v ∈ b.vertices, v.point.Finite) →
      solvedOf (b.after a).inequalities = solvedOf b.inequalities →
      (b.after a).vertices = b.vertices ∧ (b.after a).selected = b.selected) ∧
    (b.Spares a → solvedOf (b.after a).inequalities = solvedOf b.inequalities) := by
  have sound := h.sound
  have sound' := sound.after a
  have refreshed := after_refreshed recasts
  refine ⟨fun i j v w hv hw finite same => ?_, fun finite solved => ?_, sound.solvedOf_after⟩
  · exact sound.kept refreshed hv hw (sound.point_eq sound' hv hw same) finite.near_self
  · exact sound.unchanged sound' refreshed (fun v hv => (finite v hv).near_self) solved

/-- A session in which two of three lines are claimed, and their corner is selected and half
named. -/
def halfNamed : List (Action Float) :=
  [.add "x >= 0", .add "y >= 0", .add "x + y <= 3", .chooseRegion "d2" (some "regionB"),
    .chooseRegion "d3" (some "regionA"), .select 0, .submit "3" "5"]

/-- When the third line is claimed two corners come in front of it. -/
theorem corners_stay_of_halfNamed : ∃ b : Board Float, b.Reachable ∧ b.selected = some 0 ∧
    (∃ v w, b.vertices[0]? = some v ∧ v.status = .partly ∧
      (b.after (.chooseRegion "d1" (some "regionA"))).vertices[2]? = some w ∧
      w.status = v.status ∧
      (b.after (.chooseRegion "d1" (some "regionA"))).selected = some 2) ∧
    (b.after (.add "x > 1")).vertices = b.vertices := by
  obtain ⟨b₀, made, run⟩ := exists_made (p := fun b =>
    let b := b.afterAll halfNamed
    b.selected == some 0 && b.vertices.all (fun v => v.point.x.isFinite && v.point.y.isFinite) &&
      b.vertices[0]?.any fun v => v.status == .partly &&
        (b.after (.chooseRegion "d1" (some "regionA"))).vertices[2]?.any fun w =>
          v.point.same w.point) (by decide +kernel)
  have reachable := (Reachable.made made).afterAll halfNamed
  generalize b₀.afterAll halfNamed = b at run reachable
  simp only [Bool.and_eq_true, beq_iff_eq, List.all_eq_true, Option.any_eq_true] at run
  obtain ⟨⟨selected, finite⟩, v, hv, status, w, hw, same⟩ := run
  have noEquation : (LinearForm.ofText? "x > 1" : Option (LinearForm Float)).all
      (fun form => form.operator != .eq) = true := by decide +kernel
  refine ⟨b, reachable, selected, ?_, ?_⟩
  · obtain ⟨keeps, stays⟩ := (reachable.corners_stay (.chooseRegion "d1" (some "regionA"))).1
      0 2 v w hv hw (finite v (List.mem_of_getElem? hv)) same
    exact ⟨v, w, hv, status, hw, keeps, stays.2 selected⟩
  · obtain ⟨-, unchanged, spared⟩ := reachable.corners_stay (.add "x > 1")
    refine (unchanged finite (spared (.add fun form reads => ?_))).1
    rw [reads] at noEquation
    simpa using noEquation

end Board
end HalfPlane
