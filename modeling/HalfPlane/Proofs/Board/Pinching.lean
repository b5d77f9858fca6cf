/-
What a pinch does to the window, and why it never clicks.

A pinch keeps how far apart the fingers were at first and the zoom then, and every move works its
zoom out from these two. So only the last move counts: the moves before it leave no trace in the
zoom, not even when it was cut off at the end of its range (`Pinching.zoom_touchMove`). In exact
arithmetic every move leaves the point of the plane between the fingers where it is.

The second finger ends the press, and only a press that is held can become a click. No action but a
new press brings one back (`press_after`), so until then fingers and pointers are moved and lifted
without a click (`pinch_follows_last_move`).
-/
import HalfPlane.Proofs.Board.Controls
import HalfPlane.Proofs.Board.Dragging
import HalfPlane.Proofs.View.Zooming

namespace HalfPlane
open Scalar
variable {α : Type}

namespace Board

/-! ## Moving two fingers -/

section Pinches
variable [Scalar α]

/-- The pixel halfway between two fingers. -/
def between (s t : Pixel α) : Pixel α := ⟨(s.x + t.x) / 2.0, (s.y + t.y) / 2.0⟩

variable [Hypot α]

/-- The board after fingers have moved, one move after another. -/
def stretched (b : Board α) (moves : List (List (Pixel α))) : Board α := moves.foldl touchMove b

/-- A board `c` on which two fingers pinch that were this far apart on board `b`. -/
structure Pinching (b c : Board α) (distance : α) : Prop where
  pinch : c.pointer.pinch = some ⟨distance, b.view.zoom⟩
  minZoom : c.view.minZoom = b.view.minZoom
  maxZoom : c.view.maxZoom = b.view.maxZoom
  usual : b.view.Usual → c.view.Usual

namespace Pinching
variable {b c : Board α} {distance : α}

theorem touchStart (b : Board α) (s t : Pixel α) (more : List (Pixel α)) :
    Pinching b (b.touchStart (s :: t :: more)) (pixelDistance t s) :=
  ⟨rfl, rfl, rfl, fun usual => usual⟩

theorem touchMove_eq (h : Pinching b c distance) (apart : ¬ distance < tolerance)
    (s t : Pixel α) (more : List (Pixel α)) :
    c.touchMove (s :: t :: more) =
      { c with
        view :=
          c.view.setZoomAt (b.view.zoom * (pixelDistance t s / distance)) (between s t) } := by
  simp only [touchMove, h.pinch]
  exact if_neg apart

/-- Fingers that were together at first move nothing. -/
theorem touchMove_together (h : Pinching b c distance) (together : distance < tolerance)
    (s t : Pixel α) (more : List (Pixel α)) : c.touchMove (s :: t :: more) = c := by
  simp only [touchMove, h.pinch]
  exact if_pos together

theorem touchMove (h : Pinching b c distance) (s t : Pixel α) (more : List (Pixel α)) :
    Pinching b (c.touchMove (s :: t :: more)) distance := by
  by_cases together : distance < tolerance
  · rw [h.touchMove_together together]
    exact h
  · rw [h.touchMove_eq together]
    exact ⟨h.pinch, h.minZoom, h.maxZoom, fun usual => (h.usual usual).setZoomAt _ _⟩

theorem stretched (h : Pinching b c distance) {moves : List (List (Pixel α))}
    (two : ∀ m ∈ moves, 2 ≤ m.length) : Pinching b (c.stretched moves) distance := by
  induction moves generalizing c with
  | nil => exact h
  | cons m moves ih =>
    obtain ⟨first, rest⟩ := List.forall_mem_cons.1 two
    match m, first with
    | s :: t :: more, _ => exact ih (h.touchMove s t more) rest

/-- The zoom after a move is that at the start times the ratio of the distances. -/
theorem zoom_touchMove (h : Pinching b c distance) (apart : ¬ distance < tolerance)
    (s t : Pixel α) (more : List (Pixel α)) :
    (c.touchMove (s :: t :: more)).view.zoom =
      b.view.clampZoom (b.view.zoom * (pixelDistance t s / distance)) := by
  rw [h.touchMove_eq apart]
  show c.view.clampZoom _ = _
  rw [View.clampZoom, View.clampZoom, h.minZoom, h.maxZoom]

end Pinching

theorem stretched_snoc (b : Board α) (moves : List (List (Pixel α))) (m : List (Pixel α)) :
    b.stretched (moves ++ [m]) = (b.stretched moves).touchMove m :=
  List.foldl_concat ..

end Pinches

/-- In exact arithmetic the point of the plane between the fingers stays there. -/
theorem Pinching.toPlane_touchMove {K : Type} [Field K] [LinearOrder K] [IsStrictOrderedRing K]
    [Hypot K] {b c : Board K} {distance : K} (h : Pinching b c distance) (usual : b.view.Usual)
    (s t : Pixel K) (more : List (Pixel K)) :
    (c.touchMove (s :: t :: more)).view.toPlane (between s t) = c.view.toPlane (between s t) := by
  by_cases together : distance < tolerance
  · rw [h.touchMove_together together]
  · rw [h.touchMove_eq together]
    have nonzero {v : View K} (usual : v.Usual) : v.zoom ≠ 0 :=
      (lt_of_lt_of_le (by norm_num) usual.twenty_le_zoom).ne'
    have before := nonzero (h.usual usual)
    have after := nonzero ((h.usual usual).setZoomAt
      (b.view.zoom * (pixelDistance t s / distance)) (between s t))
    exact View.toPlane_setZoomAt before after (between s t)

/-- In a session every move is an action. -/
theorem afterAll_touchMove [Coordinate α] (b : Board α) (moves : List (List (Pixel α))) :
    b.afterAll (moves.map .touchMove) = b.stretched moves := by
  unfold afterAll
  rw [List.foldl_map]
  rfl

/-! ## Boards without a press -/

/-- The actions that press a pointer or a single finger. -/
def Action.presses : Action α → Bool
  | .pointerDown _ | .touchStart [_] => true
  | _ => false

/-- The actions that move or lift fingers, or release a pointer. -/
inductive Action.Eases : Action α → Prop where
  | touchMove (touches : List (Pixel α)) : Eases (.touchMove touches)
  | touchEnd (touches : List (Pixel α)) : Eases (.touchEnd touches)
  | pointerUp (s : Pixel α) : Eases (.pointerUp s)

section Unpressed
variable [Coordinate α] {b : Board α}

/-- An action that does not click: there is nothing to say about it, and only the window, the label
under the pointer and the pointer have changed. -/
structure Unclicked (b : Board α) (a : Action α) : Prop where
  clickedAt : b.clickedAt a = none
  answer : (b.perform a).1 = .ok .nothing ∨ (b.perform a).1 = .ok (.feedback none)
  rest : { b.after a with view := b.view, hovered := b.hovered, pointer := b.pointer } = b

theorem drag_unpressed (h : b.pointer.press = none) (s : Pixel α) : b.drag s = b := by
  unfold drag
  rw [h]

omit [Coordinate α] in
theorem releasedAt_unpressed (h : b.pointer.press = none) (s : Pixel α) :
    b.releasedAt s = none := by
  unfold releasedAt
  rw [h]
  rfl

theorem pointerUp_unpressed (h : b.pointer.press = none) (s : Pixel α) :
    b.pointerUp s = (.ok none, b.released) := by
  rw [pointerUp_eq, releasedAt_unpressed h]

theorem touchEnd_unpressed (h : b.pointer.press = none) (touches : List (Pixel α)) :
    ∃ pointer : Pointer α, pointer.press = none ∧
      b.touchEnd touches = (.ok none, { b with pointer }) := by
  unfold touchEnd
  split
  · dsimp only
    split
    · exact ⟨{ b.pointer with pinch := none }, h, rfl⟩
    · exact ⟨b.pointer, h, rfl⟩
  · split
    · exact ⟨b.pointer, h, rfl⟩
    · next s _ =>
      rw [pointerUp_unpressed h]
      exact ⟨_, rfl, rfl⟩

theorem touchMove_unpressed (h : b.pointer.press = none) (touches : List (Pixel α)) :
    ∃ (view : View α) (hovered : Option String),
      b.touchMove touches = { b with view, hovered } := by
  unfold touchMove
  split
  · unfold pinchTo
    split
    · exact ⟨_, _, rfl⟩
    · exact ⟨_, _, rfl⟩
  · rw [pointerMove, drag_unpressed h]
    exact ⟨_, _, rfl⟩
  · exact ⟨_, _, rfl⟩

theorem unclicked_unpressed (h : b.pointer.press = none) {a : Action α} (eases : a.Eases) :
    b.Unclicked a := by
  cases eases with
  | touchMove touches =>
    obtain ⟨view, hovered, moved⟩ := touchMove_unpressed h touches
    refine ⟨rfl, .inl rfl, ?_⟩
    rw [show b.after (.touchMove touches) = _ from moved]
  | touchEnd touches =>
    obtain ⟨pointer, -, lifted⟩ := touchEnd_unpressed h touches
    refine ⟨?_, .inr ?_, ?_⟩
    · unfold Board.clickedAt
      dsimp only
      split
      · exact releasedAt_unpressed h _
      · rfl
    · simp only [perform, lifted]
      rfl
    · simp only [Board.after, perform, lifted]
      rfl
  | pointerUp s =>
    refine ⟨releasedAt_unpressed h s, .inr ?_, ?_⟩
    · simp only [perform, pointerUp_unpressed h]
      rfl
    · simp only [Board.after, perform, pointerUp_unpressed h]
      rfl

/-! ## Until the next press -/

theorem pointer_add (b : Board α) (text : String) : (b.add text).2.pointer = b.pointer := by
  unfold add
  split
  · rfl
  · dsimp only
    split
    · rfl
    · split
      · rfl
      · rfl
      · split
        · rfl
        · next q _ =>
          obtain ⟨c, kept⟩ := (onstage_refreshAndSay .added).keeps (α := α) _
          rw [kept]
          rfl

/-- Only a press brings one about. -/
theorem press_after (h : b.pointer.press = none) {a : Action α} (other : a.presses = false) :
    (b.after a).pointer.press = none := by
  by_cases front : a.onstage = true
  · obtain ⟨c, kept⟩ := (onstage_perform front).keeps b
    unfold Board.after
    rw [kept]
    exact h
  · cases a with
    | remove | clearChoice | chooseRegion | select | submit | check | click | wheel | pan | resize
    | resetView => exact absurd rfl front
    | add text =>
      have same : (b.after (.add text)).pointer = b.pointer := pointer_add b text
      rw [same]
      exact h
    | pointerDown s => cases other
    | pointerMove s =>
      show (b.pointerMove s).2.pointer.press = none
      rw [pointerMove, drag_unpressed h]
      exact h
    | pointerUp s =>
      show (b.pointerUp s).2.pointer.press = none
      rw [pointerUp_unpressed h]
      rfl
    | touchStart touches =>
      cases touches with
      | nil => exact h
      | cons s rest =>
        cases rest with
        | nil => cases other
        | cons t more => rfl
    | touchMove touches =>
      obtain ⟨view, hovered, moved⟩ := touchMove_unpressed h touches
      rw [show b.after (.touchMove touches) = _ from moved]
      exact h
    | touchEnd touches =>
      obtain ⟨pointer, unpressed, lifted⟩ := touchEnd_unpressed h touches
      show (b.touchEnd touches).2.pointer.press = none
      rw [lifted]
      exact unpressed
    | reset =>
      show b.reset.2.pointer.press = none
      unfold reset resetView
      cases View.centred b.cleared.view.width b.cleared.view.height View.standardZoom <;> rfl
    | validateLater | deliver | advance | close => exact h

theorem press_afterAll (h : b.pointer.press = none) {actions : List (Action α)}
    (other : ∀ a ∈ actions, a.presses = false) : (b.afterAll actions).pointer.press = none := by
  induction actions generalizing b with
  | nil => exact h
  | cons a actions ih =>
    obtain ⟨first, rest⟩ := List.forall_mem_cons.1 other
    exact ih (press_after h first) rest

end Unpressed

/-! ## Pinches -/

/-- After a pinch the zoom is that at its start times the ratio of the distances of the last move
and the start, brought into the range, whatever the moves in between were. In exact arithmetic each
move leaves the point of the plane between the fingers where it is. And from the start of the pinch
to the next press, whatever else happens, fingers are moved and lifted and pointers released without
a click. -/
theorem pinch_follows_last_move :
    (∀ (b : Board Float) (s t : Pixel Float) (more : List (Pixel Float)),
      tolerance ≤ pixelDistance t s →
      ∀ moves : List (List (Pixel Float)), (∀ m ∈ moves, 2 ≤ m.length) →
      ∀ (s' t' : Pixel Float) (more' : List (Pixel Float)),
        (b.afterAll (.touchStart (s :: t :: more) ::
          (moves ++ [s' :: t' :: more']).map .touchMove)).view.zoom =
            b.view.clampZoom (b.view.zoom * (pixelDistance t' s' / pixelDistance t s))) ∧
    (∀ {K : Type} [Field K] [LinearOrder K] [IsStrictOrderedRing K] [Hypot K]
      (b : Board K), b.view.Usual → ∀ (s t : Pixel K) (more : List (Pixel K)),
      ∀ moves : List (List (Pixel K)), (∀ m ∈ moves, 2 ≤ m.length) →
      ∀ (s' t' : Pixel K) (more' : List (Pixel K)),
        (((b.touchStart (s :: t :: more)).stretched moves).touchMove
          (s' :: t' :: more')).view.toPlane ⟨(s'.x + t'.x) / 2, (s'.y + t'.y) / 2⟩ =
          ((b.touchStart (s :: t :: more)).stretched moves).view.toPlane
            ⟨(s'.x + t'.x) / 2, (s'.y + t'.y) / 2⟩) ∧
    ∀ (b : Board Float) (s t : Pixel Float) (more : List (Pixel Float))
      (actions : List (Action Float)), (∀ a ∈ actions, a.presses = false) →
      ∀ a : Action Float, a.Eases →
        (b.afterAll (.touchStart (s :: t :: more) :: actions)).Unclicked a := by
  refine ⟨?_, ?_, ?_⟩
  · intro b s t more apart moves two s' t' more'
    have notTogether : ¬ pixelDistance t s < tolerance := fun together =>
      LawfulCoordinate.lt_irrefl _ (LawfulCoordinate.lt_of_lt_of_le together apart)
    have pinching := (Pinching.touchStart b s t more).stretched two
    show ((b.touchStart (s :: t :: more)).afterAll _).view.zoom = _
    rw [afterAll_touchMove, stretched_snoc]
    exact pinching.zoom_touchMove notTogether s' t' more'
  · intro K _ _ _ _ b usual s t more moves two s' t' more'
    have halfway : between s' t' = ⟨(s'.x + t'.x) / 2, (s'.y + t'.y) / 2⟩ := by
      have half : (2.0 : K) = 2 := by norm_num
      rw [between, half]
    rw [← halfway]
    exact ((Pinching.touchStart b s t more).stretched two).toPlane_touchMove usual s' t' more'
  · intro b s t more actions other a eases
    have unpressed : (b.touchStart (s :: t :: more)).pointer.press = none := rfl
    exact unclicked_unpressed (press_afterAll unpressed other) eases

/-- A second finger joins a press. A move on the way is cut off at the largest zoom and leaves no
trace, and when the fingers are lifted one after the other the press does not click. In exact
arithmetic a move to the side keeps its middle. -/
theorem pinch_follows_last_move_of_press :
    (∃ b : Board Float, b.Reachable ∧ b.pointer.press.isSome = true ∧
      tolerance ≤ pixelDistance ⟨200.0, 100.0⟩ (⟨100.0, 100.0⟩ : Pixel Float) ∧
      (b.afterAll [.touchStart [⟨100.0, 100.0⟩, ⟨200.0, 100.0⟩],
        .touchMove [⟨0.0, 100.0⟩, ⟨600.0, 100.0⟩],
        .touchMove [⟨100.0, 100.0⟩, ⟨250.0, 100.0⟩]]).view.zoom =
          b.view.clampZoom (b.view.zoom * (pixelDistance ⟨250.0, 100.0⟩ ⟨100.0, 100.0⟩ /
            pixelDistance ⟨200.0, 100.0⟩ ⟨100.0, 100.0⟩)) ∧
      (b.afterAll [.touchStart [⟨100.0, 100.0⟩, ⟨200.0, 100.0⟩],
        .touchEnd [⟨100.0, 100.0⟩]]).Unclicked (.touchEnd [])) ∧
    ((LinearForm.boardOf .faint).touchStart [⟨0, 0⟩, ⟨2, 0⟩]).view.toPlane ⟨3, 1⟩ =
      (((LinearForm.boardOf .faint).touchStart [⟨0, 0⟩, ⟨2, 0⟩]).touchMove
        [⟨1, 1⟩, ⟨5, 1⟩]).view.toPlane ⟨3, 1⟩ := by
  obtain ⟨rounded, exact, unclicked⟩ := pinch_follows_last_move
  have apart : tolerance ≤ pixelDistance ⟨200.0, 100.0⟩ (⟨100.0, 100.0⟩ : Pixel Float) := by
    decide +kernel
  refine ⟨?_, ?_⟩
  · obtain ⟨b, reachable, -⟩ := exists_selected
    refine ⟨b.after (.touchStart [⟨100.0, 100.0⟩]), reachable.after _, rfl, apart, ?_, ?_⟩
    · exact rounded (b.after (.touchStart [⟨100.0, 100.0⟩])) _ _ [] apart
        [[⟨0.0, 100.0⟩, ⟨600.0, 100.0⟩]] (by simp) ⟨100.0, 100.0⟩ ⟨250.0, 100.0⟩ []
    · exact unclicked _ _ _ [] [.touchEnd [⟨100.0, 100.0⟩]] (by simp [Action.presses]) _
        (.touchEnd [])
  · have moved := exact (LinearForm.boardOf .faint) (LinearForm.usual_boardOf .faint) ⟨0, 0⟩ ⟨2, 0⟩
      [] [] (by simp) ⟨1, 1⟩ ⟨5, 1⟩ []
    norm_num at moved
    exact moved.symm

end Board
end HalfPlane
