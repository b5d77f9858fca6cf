/-
How the status of a corner changes, one action at a time.

Whatever happens to a board, a corner that is still there keeps its status or moves on
(`Status.Moves`), and once it is solved it stays so. Selecting, clicking and looking make a corner
active or let it go (`Turned`). Only naming its coordinates makes a selected corner partly or fully
solved, and it does so exactly by what the typed coordinates are worth (`rating`). When the corners
are worked out again they bring the statuses of old ones along.
-/
import HalfPlane.Proofs.Board.Refreshing

namespace HalfPlane
open Scalar

/-- The ways in which the status of a corner changes. -/
inductive Status.Moves : Status → Status → Prop where
  | select : Moves .unsolved .active
  | release : Moves .active .unsolved
  | half : Moves .active .partly
  | finish : Moves .active .solved
  | reselect : Moves .partly .active
  | complete : Moves .partly .solved

/-- The status of a corner after its coordinates were rated. -/
def Status.rated (s : Status) : Option (Bool × Bool) → Status
  | some (true, true) => .solved
  | some (true, false) | some (false, true) => .partly
  | _ => s

namespace Board
variable {α : Type}

/-! ## Selecting and letting go -/

/-- The same corners, some of them selected or let go. -/
structure Turned (vertices vertices' : List (Vertex α)) : Prop where
  bare : vertices'.map Vertex.bare = vertices.map Vertex.bare
  status : ∀ {i : Nat} {v w : Vertex α}, vertices[i]? = some v → vertices'[i]? = some w →
    w.status = v.status ∨
      v.status.Moves w.status ∧ (w.status = .unsolved ∨ w.status = .active)

namespace Turned
variable {vertices : List (Vertex α)}

theorem refl (vertices : List (Vertex α)) : Turned vertices vertices :=
  ⟨rfl, fun hv hw => .inl (by rw [Option.some.inj (hv.symm.trans hw)])⟩

theorem release {i : Nat} {v : Vertex α} (hv : vertices[i]? = some v)
    (active : v.status = .active) : Turned vertices (marked vertices i .unsolved) := by
  refine ⟨map_bare_marked _ _ _, fun {j u w} hu hw => ?_⟩
  rw [getElem?_marked] at hw
  split at hw
  · next same =>
    subst same
    rw [hv] at hu hw
    cases hu
    cases hw
    right
    rw [active]
    exact ⟨.release, .inl rfl⟩
  · rw [hu] at hw
    cases hw
    exact .inl rfl

theorem calmed (vertices : List (Vertex α)) : Turned vertices (Board.calmed vertices) := by
  refine ⟨map_bare_calmed _, fun {j u w} hu hw => ?_⟩
  rw [getElem?_calmed, hu, Option.map_some, Option.some.injEq] at hw
  subst hw
  split
  · next active =>
    right
    rw [active]
    exact ⟨.release, .inl rfl⟩
  · exact .inl rfl

theorem activate {i : Nat} {v : Vertex α} (hv : vertices[i]? = some v)
    (unsolved : v.status ≠ .solved) :
    Turned vertices (marked (Board.calmed vertices) i .active) := by
  have calm := calmed vertices
  refine ⟨(map_bare_marked _ _ _).trans calm.bare, fun {j u w} hu hw => ?_⟩
  rw [getElem?_marked] at hw
  split at hw
  · next same =>
    subst same
    rw [hv, Option.some.injEq] at hu
    subst hu
    rw [Option.map_eq_some_iff] at hw
    obtain ⟨_, -, rfl⟩ := hw
    cases status : v.status with
    | unsolved => exact .inr ⟨.select, .inr rfl⟩
    | active => exact .inl rfl
    | partly => exact .inr ⟨.reselect, .inr rfl⟩
    | solved => exact absurd status unsolved
  · exact calm.status hu hw

theorem former {vertices' : List (Vertex α)} (h : Turned vertices vertices') {i : Nat}
    {w : Vertex α} (hw : vertices'[i]? = some w) :
    ∃ v, vertices[i]? = some v ∧ v.point = w.point := by
  obtain ⟨v, hv, same⟩ := exists_of_map_bare h.bare hw
  exact ⟨v, hv, Vertex.point_of_bare same⟩

end Turned

section Naming
variable {b : Board α}

theorem turned_deselect {i : Nat} {v : Vertex α} (hv : b.vertices[i]? = some v) :
    Turned b.vertices (b.deselect i v).vertices := by
  unfold deselect
  split
  · next active => exact .release hv active
  · exact .refl _

theorem turned_select (b : Board α) (index : Int) :
    Turned b.vertices (b.select index).2.vertices := by
  unfold select
  split
  · exact .refl _
  · next v found =>
    have hv : b.vertices[index.toNat]? = some v := by
      split at found
      · exact found
      · cases found
    dsimp only
    split
    · exact turned_deselect hv
    · split
      · exact .calmed _
      · next unsolved => exact .activate hv unsolved

theorem turned_missed (b : Board α) : Turned b.vertices b.missed.vertices := by
  unfold missed
  split
  · next i v selected active =>
    unfold activeVertex at active
    rw [selected] at active
    exact turned_deselect active
  · exact .refl _

theorem turned_click [Scalar α] [Hypot α] {s : Pixel α} (h : ¬ b.HitsBox s) :
    Turned b.vertices (b.click s).2.vertices := by
  unfold click
  split
  · next i _ => exact turned_select b i
  · next missed =>
    split
    · exact .refl _
    · next controls boxes =>
      split
      · exact turned_missed b
      · next c hit => exact absurd ⟨missed, controls, c, boxes, hit⟩ h

end Naming

/-! ## Naming coordinates -/

theorem marked_status {vertices : List (Vertex α)} {i : Nat} {v : Vertex α}
    (hv : vertices[i]? = some v) : marked vertices i v.status = vertices := by
  refine List.ext_getElem? fun j => ?_
  rw [getElem?_marked]
  split
  · next same =>
    subst same
    rw [hv]
    rfl
  · rfl

theorem activeVertex_eq {b : Board α} {i : Nat} {v : Vertex α} (selected : b.selected = some i)
    (hv : b.vertices[i]? = some v) : b.activeVertex = some v := by
  unfold activeVertex
  rw [selected]
  exact hv

section Grading
variable [Scalar α] [Readable α]

theorem readCoordinate_blank {text : String} (h : Text.allBlank text = true) :
    (readCoordinate text : Option α) = none := by
  have nothing : Text.trimmed text.toList = [] := by
    have dropped : text.toList.dropWhile Text.isBlank = [] :=
      List.dropWhile_eq_nil_iff.2 (List.all_eq_true.1 h)
    simp [Text.trimmed, dropped]
  have unread : Decimal.readWritten "" = none := by decide +kernel
  simp [readCoordinate, nothing, Decimal.read?, unread]

variable [Exact α]

/-- What typed coordinates are worth, if both can be read: which of them is that of the point, to
one decimal place. -/
def rating (p : Point α) (xText yText : String) : Option (Bool × Bool) :=
  match (readCoordinate xText : Option α), (readCoordinate yText : Option α) with
  | some x, some y => some (oneDecimal x = oneDecimal p.x, oneDecimal y = oneDecimal p.y)
  | _, _ => none

/-- What is said of the coordinates typed for a corner at a point. -/
def grading (p : Point α) (xText yText : String) : Feedback :=
  if Text.allBlank xText || Text.allBlank yText then .missingCoordinates
  else
    match rating p xText yText with
    | none => .badNumber
    | some (true, true) => .correct
    | some (xOk, yOk) => .graded xOk yOk

/-- A blank text is no number either, so nothing is rated. -/
theorem rating_blank (p : Point α) {xText yText : String}
    (blank : (Text.allBlank xText || Text.allBlank yText) = true) :
    rating p xText yText = none := by
  unfold rating
  rcases Bool.or_eq_true_iff.1 blank with blank | blank <;> rw [readCoordinate_blank blank]
  cases (readCoordinate xText : Option α) <;> rfl

section Submit
variable {b : Board α} {i : Nat} {v : Vertex α}

/-- Coordinates that are wanted for the selected corner rate it, and it is let go once it is
solved. -/
theorem submit_eq (selected : b.selected = some i) (hv : b.vertices[i]? = some v)
    (asks : v.status.asks = true) (xText yText : String) :
    b.submit xText yText =
      { b with
        vertices := marked b.vertices i (v.status.rated (rating v.target xText yText))
        selected := if rating v.target xText yText = some (true, true) then none else some i }.say
        (grading v.target xText yText) := by
  have own : { b with vertices := marked b.vertices i v.status, selected := some i } = b := by
    rw [marked_status hv, ← selected]
  simp only [submit, selected, activeVertex_eq selected hv, asks, Bool.not_true,
    Bool.false_eq_true, if_false]
  unfold grading
  split
  · next blank =>
    rw [rating_blank _ blank]
    exact (congrArg (·.say .missingCoordinates) own).symm
  · unfold rating
    cases (readCoordinate xText : Option α) with
    | none => exact (congrArg (·.say .badNumber) own).symm
    | some x =>
      cases (readCoordinate yText : Option α) with
      | none => exact (congrArg (·.say .badNumber) own).symm
      | some y =>
        dsimp only
        by_cases xOk : oneDecimal x = oneDecimal v.target.x <;>
          by_cases yOk : oneDecimal y = oneDecimal v.target.y <;>
          simp only [xOk, yOk, and_self, and_true, and_false, true_or, or_true, or_self, if_true,
            if_false, decide_true, decide_false, Status.rated]
        · rfl
        · rw [if_neg (by decide), ← selected]
          rfl
        · rw [if_neg (by decide), ← selected]
          rfl
        · exact (congrArg (·.say (.graded false false)) own).symm

theorem submit_unasked (selected : b.selected = some i) (hv : b.vertices[i]? = some v)
    (asks : v.status.asks = false) (xText yText : String) :
    b.submit xText yText = b.say .noActive := by
  simp only [submit, selected, activeVertex_eq selected hv, asks]
  rfl

/-- Naming coordinates rates the selected corner, if they are wanted for it. -/
theorem submit_vertices (selected : b.selected = some i) (hv : b.vertices[i]? = some v)
    (xText yText : String) :
    (b.submit xText yText).2.vertices =
      if v.status.asks then marked b.vertices i (v.status.rated (rating v.target xText yText))
      else b.vertices := by
  cases asks : v.status.asks with
  | false => rw [submit_unasked selected hv asks]; rfl
  | true => rw [submit_eq selected hv asks]; rfl

end Submit

theorem submit_idle {b : Board α} (idle : b.selected = none) (xText yText : String) :
    (b.submit xText yText).2.vertices = b.vertices := by
  simp only [submit, idle]
  rfl

end Grading
end Board

namespace Status
variable {s : Status} {r : Option (Bool × Bool)}

theorem rated_moves (asks : s.asks = true) : s.rated r = s ∨ s.Moves (s.rated r) := by
  rcases r with _ | ⟨_ | _, _ | _⟩ <;> cases s <;> cases asks
  case none.active.refl | none.partly.refl => exact .inl rfl
  case some.false.false.active.refl | some.false.false.partly.refl => exact .inl rfl
  case some.false.true.partly.refl | some.true.false.partly.refl => exact .inl rfl
  case some.false.true.active.refl | some.true.false.active.refl => exact .inr .half
  case some.true.true.active.refl => exact .inr .finish
  case some.true.true.partly.refl => exact .inr .complete

theorem rated_eq_solved_iff (h : s ≠ .solved) : s.rated r = .solved ↔ r = some (true, true) := by
  rcases r with _ | ⟨_ | _, _ | _⟩ <;> simp [rated, h]

theorem rated_of_not_right (h : r ≠ some (true, true)) : s.rated r = s ∨ s.rated r = .partly := by
  rcases r with _ | ⟨_ | _, _ | _⟩
  · exact .inl rfl
  · exact .inl rfl
  · exact .inr rfl
  · exact .inr rfl
  · exact absurd rfl h

theorem rated_eq_partly_iff (h : s ≠ .partly) :
    s.rated r = .partly ↔ r = some (true, false) ∨ r = some (false, true) := by
  rcases r with _ | ⟨_ | _, _ | _⟩ <;> simp [rated, h]

end Status

namespace Board
variable {α : Type} [Coordinate α] {b : Board α}

/-! ## Any other action -/

theorem vertices_pointerMove (b : Board α) (s : Pixel α) :
    (b.pointerMove s).2.vertices = b.vertices := by
  have same := congrArg Core.vertices (b.drag_core s).1
  exact same

theorem vertices_touchMove (b : Board α) (touches : List (Pixel α)) :
    (b.touchMove touches).vertices = b.vertices := by
  unfold touchMove
  split
  · unfold pinchTo
    split <;> rfl
  · exact vertices_pointerMove b _
  · rfl

theorem vertices_touchEnd {touches : List (Pixel α)} (h : b.clickedAt (.touchEnd touches) = none) :
    (b.touchEnd touches).2.vertices = b.vertices := by
  unfold touchEnd
  split
  · dsimp only
    split <;> rfl
  · next pinch =>
    split
    · rfl
    · next s last =>
      have noClick : b.releasedAt s = none := by
        simp only [clickedAt, pinch, last] at h
        exact h
      rw [pointerUp_eq, noClick]
      rfl

/-- An action that neither casts nor names coordinates turns the corners, or clears the board. -/
theorem after_turned {a : Action α} (notRecasting : ¬ b.Recasts a)
    (notNaming : ∀ xText yText, a ≠ .submit xText yText) :
    Turned b.vertices (b.after a).vertices ∨ (b.after a).vertices = [] := by
  cases clicked : b.clickedAt a with
  | some s =>
    -- A click that is left hits no box: it selects, or lets go.
    left
    have misses : ¬ b.HitsBox s := fun hits => notRecasting (.click clicked hits)
    rcases after_of_clickedAt clicked with h | h <;> rw [h]
    · exact turned_click misses
    · exact turned_click (b := b.released) misses
  | none =>
    have still : (b.after a).vertices = b.vertices →
        Turned b.vertices (b.after a).vertices ∨ (b.after a).vertices = [] := fun same =>
      .inl (by rw [same]; exact .refl _)
    cases a with
    | add text => exact absurd (.add text) notRecasting
    | remove label => exact absurd (.remove label) notRecasting
    | clearChoice label => exact absurd (.clearChoice label) notRecasting
    | chooseRegion label side => exact absurd (.chooseRegion label side) notRecasting
    | submit x y => exact absurd rfl (notNaming x y)
    | click s => cases clicked
    | select index => exact .inl (turned_select b index)
    | check p =>
      refine still ?_
      show (b.check p).2.vertices = _
      unfold check
      dsimp only
      split <;> rfl
    | pointerMove s => exact still (vertices_pointerMove b s)
    | pointerUp s =>
      refine still ?_
      show (b.pointerUp s).2.vertices = _
      rw [pointerUp_eq, show b.releasedAt s = none from clicked]
      rfl
    | wheel delta s =>
      refine still ?_
      show (b.wheel delta s).vertices = _
      unfold wheel
      split <;> rfl
    | touchStart touches =>
      refine still ?_
      show (b.touchStart touches).vertices = _
      unfold touchStart
      split <;> rfl
    | touchMove touches => exact still (vertices_touchMove b touches)
    | touchEnd touches => exact still (vertices_touchEnd clicked)
    | resize width height =>
      refine still ?_
      show (b.resize width height).2.vertices = _
      unfold resize
      split <;> rfl
    | resetView =>
      refine still ?_
      show b.resetView.2.vertices = _
      unfold resetView
      split <;> rfl
    | reset =>
      right
      show b.reset.2.vertices = []
      unfold reset resetView
      cases View.centred b.cleared.view.width b.cleared.view.height View.standardZoom <;> rfl
    | pointerDown | pan | validateLater | deliver | advance | close => exact still rfl

/-! ## One action -/

section Steps
variable {a : Action α} {i j : Nat} {v w : Vertex α}

/-- The statuses that the corner with this index can have after an action that does not work the
corners out again. -/
inductive Revised (b : Board α) (a : Action α) (i : Nat) (v : Vertex α) : Status → Prop where
  | kept : Revised b a i v v.status
  | turned {s : Status} : v.status.Moves s → s = .unsolved ∨ s = .active → Revised b a i v s
  | rated {xText yText : String} : a = .submit xText yText → b.selected = some i →
      v.status.asks = true → Revised b a i v (v.status.rated (rating v.point xText yText))

theorem Revised.moves {s : Status} (h : b.Revised a i v s) : s = v.status ∨ v.status.Moves s := by
  cases h with
  | kept => exact .inl rfl
  | turned moves _ => exact .inr moves
  | rated _ _ asks => exact Status.rated_moves asks

theorem Sound.revised_submit (sound : b.Sound) {xText yText : String}
    (hw : (b.submit xText yText).2.vertices[j]? = some w) :
    ∃ v, b.vertices[j]? = some v ∧ v.point = w.point ∧
      b.Revised (.submit xText yText) j v w.status := by
  cases selected : b.selected with
  | none =>
    rw [submit_idle selected] at hw
    exact ⟨w, hw, rfl, .kept⟩
  | some i =>
    obtain ⟨v, hv, -⟩ : ∃ v, b.vertices[i]? = some v ∧ v.status ≠ .unsolved :=
      sound.coherent.selected i selected
    rw [submit_vertices selected hv, sound.coherent.targets v (List.mem_of_getElem? hv)] at hw
    split at hw
    · next asks =>
      rw [getElem?_marked] at hw
      split at hw
      · next same =>
        subst same
        rw [hv, Option.map_some, Option.some.injEq] at hw
        have point : w.point = v.point := by rw [← hw]
        have status : w.status = v.status.rated (rating v.point xText yText) := by rw [← hw]
        refine ⟨v, hv, point.symm, ?_⟩
        rw [status]
        exact .rated rfl selected asks
      · exact ⟨w, hw, rfl, .kept⟩
    · exact ⟨w, hw, rfl, .kept⟩

/-- Unless they are worked out again, each corner there is after an action was there before. -/
theorem Sound.revised (sound : b.Sound) (notRecasting : ¬ b.Recasts a)
    (hw : (b.after a).vertices[j]? = some w) :
    ∃ v, b.vertices[j]? = some v ∧ v.point = w.point ∧ b.Revised a j v w.status := by
  by_cases naming : ∃ xText yText, a = .submit xText yText
  · obtain ⟨xText, yText, rfl⟩ := naming
    exact sound.revised_submit hw
  · rcases after_turned notRecasting (fun x y h => naming ⟨x, y, h⟩) with turned | cleared
    · obtain ⟨v, hv, same⟩ := turned.former hw
      refine ⟨v, hv, same, ?_⟩
      rcases turned.status hv hw with kept | ⟨moves, shown⟩
      · rw [kept]
        exact .kept
      · exact .turned moves shown
    · rw [cleared] at hw
      cases hw

/-- The status of a corner that is still there moves on or stays. -/
theorem Sound.status_moves [LawfulCoordinate α] (sound : b.Sound) (a : Action α)
    (hv : b.vertices[i]? = some v) (hw : (b.after a).vertices[j]? = some w)
    (same : v.point = w.point) (near : v.point.near v.point = true) :
    w.status = v.status ∨ v.status.Moves w.status := by
  by_cases recasts : b.Recasts a
  · exact .inl (sound.kept (after_refreshed recasts) hv hw same near).1
  · -- The corner it was before has the same point, and the corners were apart.
    obtain ⟨u, hu, former, revised⟩ := sound.revised recasts hw
    obtain rfl := sound.index_eq hv hu (same.trans former.symm) near
    rw [hv, Option.some.injEq] at hu
    subst hu
    exact revised.moves

theorem Sound.status_entered (sound : b.Sound) (hw : (b.after a).vertices[j]? = some w)
    (entered : w.status = .partly ∨ w.status = .solved) :
    (∃ v, b.vertices[j]? = some v ∧ v.point = w.point ∧ v.status = w.status) ∨
      (b.Recasts a ∧ ∃ v ∈ b.vertices, v.point.near w.point = true ∧ v.status = w.status) ∨
      ∃ xText yText v, a = .submit xText yText ∧ b.selected = some j ∧
        b.vertices[j]? = some v ∧ v.point = w.point := by
  by_cases recasts : b.Recasts a
  · cases after_refreshed recasts with
    | same vertices selected =>
      rw [vertices] at hw
      exact .inl ⟨w, hw, rfl, rfl⟩
    | again found vertices selected =>
      rw [vertices] at hw
      obtain ⟨c, -, rfl⟩ := getElem?_refreshed hw
      have said : (vertexOf b.vertices c).status ≠ .unsolved := by
        rcases entered with h | h <;> rw [h] <;> decide
      obtain ⟨v, s, fromOld, status⟩ := continued_of_status said
      obtain ⟨hv, near⟩ := continued_some fromOld
      exact .inr (.inl ⟨recasts, v, List.mem_of_getElem? hv, near, status⟩)
  · obtain ⟨v, hv, same, revised⟩ := sound.revised recasts hw
    generalize w.status = s at revised entered ⊢
    cases revised with
    | kept => exact .inl ⟨v, hv, same, rfl⟩
    | turned _ shown => rcases entered with rfl | rfl <;> rcases shown with h | h <;> cases h
    | rated naming selected _ => exact .inr (.inr ⟨_, _, v, naming, selected, hv, same⟩)

/-- Naming the coordinates of the selected corner rates it. -/
theorem Sound.status_graded (sound : b.Sound) (xText yText : String)
    (selected : b.selected = some i) (hv : b.vertices[i]? = some v)
    (unfinished : v.status ≠ .solved) :
    ∃ w, (b.after (.submit xText yText)).vertices[i]? = some w ∧ w.point = v.point ∧
      w.status = v.status.rated (rating v.point xText yText) := by
  have asks : v.status.asks = true := by
    obtain ⟨u, hu, said⟩ := sound.coherent.selected i selected
    rw [Option.some.inj (hu.symm.trans hv)] at said
    cases status : v.status with
    | unsolved => exact absurd status said
    | active => rfl
    | partly => rfl
    | solved => exact absurd status unfinished
  have vertices : (b.after (.submit xText yText)).vertices =
      marked b.vertices i (v.status.rated (rating v.target xText yText)) :=
    (submit_vertices selected hv xText yText).trans (if_pos asks)
  have target := sound.coherent.targets v (List.mem_of_getElem? hv)
  rw [vertices, target]
  generalize v.status.rated (rating v.point xText yText) = s
  rw [getElem?_marked, if_pos rfl, hv]
  exact ⟨_, rfl, rfl, rfl⟩

end Steps

/-! ## Boards of doubles -/

/-- How an action changes the statuses of the corners on a board. -/
structure StatusStep (b : Board Float) (a : Action Float) : Prop where
  /-- A finite corner that is still there keeps its status or moves on. -/
  moves : ∀ (i j : Nat) (v w : Vertex Float), b.vertices[i]? = some v →
    (b.after a).vertices[j]? = some w → v.point.Finite → v.point.same w.point = true →
    w.status = v.status ∨ v.status.Moves w.status
  solved : ∀ (i j : Nat) (v w : Vertex Float), b.vertices[i]? = some v →
    (b.after a).vertices[j]? = some w → v.point.Finite → v.point.same w.point = true →
    v.status = .solved → w.status = .solved
  /-- A corner that is partly or fully solved was so before, or takes this over from an old corner
  near it, or its coordinates were named while it was selected. -/
  entered : ∀ (j : Nat) (w : Vertex Float), (b.after a).vertices[j]? = some w →
    w.status = .partly ∨ w.status = .solved →
    (∃ v, b.vertices[j]? = some v ∧ v.point = w.point ∧ v.status = w.status) ∨
      (b.Recasts a ∧ ∃ v ∈ b.vertices, v.point.near w.point = true ∧ v.status = w.status) ∨
      ∃ xText yText v, a = .submit xText yText ∧ b.selected = some j ∧
        b.vertices[j]? = some v ∧ v.point = w.point
  /-- The selected corner, unless it is solved already, becomes solved when both coordinates are
  right and partly so when one of them is. -/
  graded : ∀ (xText yText : String) (i : Nat) (v : Vertex Float), a = .submit xText yText →
    b.selected = some i → b.vertices[i]? = some v → v.status ≠ .solved →
    ∃ w, (b.after a).vertices[i]? = some w ∧ w.point = v.point ∧
      (w.status = .solved ↔ rating v.point xText yText = some (true, true)) ∧
      (v.status ≠ .partly → (w.status = .partly ↔
        rating v.point xText yText = some (true, false) ∨
          rating v.point xText yText = some (false, true)))

/-- On every board that is reached, every action changes the statuses in these ways only. -/
theorem Reachable.status_step {b : Board Float} (h : b.Reachable) (a : Action Float) :
    b.StatusStep a := by
  have sound := h.sound
  have moves : ∀ (i j : Nat) (v w : Vertex Float), b.vertices[i]? = some v →
      (b.after a).vertices[j]? = some w → v.point.Finite → v.point.same w.point = true →
      w.status = v.status ∨ v.status.Moves w.status := fun i j v w hv hw finite same =>
    sound.status_moves a hv hw (sound.point_eq (sound.after a) hv hw same) finite.near_self
  refine ⟨moves, fun i j v w hv hw finite same solved => ?_,
    fun j w hw entered => sound.status_entered hw entered, ?_⟩
  · rcases moves i j v w hv hw finite same with kept | moved
    · rw [kept, solved]
    · rw [solved] at moved
      cases moved
  · rintro xText yText i v rfl selected hv unsolved
    obtain ⟨w, hw, point, status⟩ := sound.status_graded xText yText selected hv unsolved
    refine ⟨w, hw, point, ?_, fun notPartly => ?_⟩ <;> rw [status]
    · exact Status.rated_eq_solved_iff unsolved
    · exact Status.rated_eq_partly_iff notPartly

/-- A corner that is half named is solved when both its coordinates are named. -/
theorem status_step_of_halfNamed : ∃ b : Board Float, b.Reachable ∧ b.selected = some 0 ∧
    ∃ v w, b.vertices[0]? = some v ∧ v.status = .partly ∧
      (b.after (.submit "3" "0")).vertices[0]? = some w ∧ w.point = v.point ∧
      w.status = .solved := by
  obtain ⟨b₀, made, run⟩ := exists_made (p := fun b =>
    let b := b.afterAll halfNamed
    b.selected == some 0 && b.vertices[0]?.any fun v =>
      v.status == .partly && rating v.point "3" "0" == some (true, true)) (by decide +kernel)
  have reachable := (Reachable.made made).afterAll halfNamed
  generalize b₀.afterAll halfNamed = b at run reachable
  simp only [Bool.and_eq_true, beq_iff_eq, Option.any_eq_true] at run
  obtain ⟨selected, v, hv, status, right⟩ := run
  obtain ⟨w, hw, point, solved, -⟩ := (reachable.status_step (.submit "3" "0")).graded "3" "0" 0 v
    rfl selected hv (by rw [status]; decide)
  exact ⟨b, reachable, selected, v, w, hv, status, hw, point, solved.2 right⟩

end Board
end HalfPlane
