/-
What becomes of a press while the pointer moves.

A press is held until it is released, and meanwhile only the window and the label under the pointer
change (`Held`). It becomes a drag with the first position that strays from where it began, and it
stays one even if the pointer comes back. So a release is a click if no position strayed, and does
nothing but end the press otherwise (`release_clicks_or_ends`).

A drag moves the window along from one position to the next, so in exact arithmetic these ways add
up. What the pointer moved before the drag began is not made up for: the point of the plane that
stays under the pointer is not the one that was pressed, but the one under the last position that
had not strayed (`drag_follows_iff`).
-/
import Mathlib.Tactic.FieldSimp
import Mathlib.Tactic.Ring
import HalfPlane.Proofs.Board.Backstage
import HalfPlane.Proofs.Board.Grading
import HalfPlane.Proofs.Board.Refreshing

namespace HalfPlane
open Scalar
variable {α : Type}

/-! ## Panning by the way from one position to another -/

namespace View
variable {K : Type} [Field K] [LinearOrder K]

/-- Two ways in a row are one. -/
theorem pan_pan_sub (v : View K) (s t u : Pixel K) :
    (v.pan (t.x - s.x) (t.y - s.y)).pan (u.x - t.x) (u.y - t.y) =
      v.pan (u.x - s.x) (u.y - s.y) := by
  simp only [pan, mk.injEq, Pixel.mk.injEq, true_and, and_true]
  constructor <;> ring

theorem pan_sub_inj {v : View K} {s t u : Pixel K} :
    v.pan (u.x - s.x) (u.y - s.y) = v.pan (u.x - t.x) (u.y - t.y) ↔ s = t := by
  cases s
  cases t
  simp only [pan, mk.injEq, Pixel.mk.injEq, add_right_inj, sub_right_inj, true_and, and_true]

/-- The point of the plane at the start of the way is at its end afterwards. -/
theorem toPlane_pan_sub {v : View K} (h : v.zoom ≠ 0) {s t u : Pixel K} :
    (v.pan (u.x - s.x) (u.y - s.y)).toPlane u = v.toPlane t ↔ s = t := by
  have x : u.x - (v.origin.x + (u.x - s.x)) = s.x - v.origin.x := by ring
  have y : v.origin.y + (u.y - s.y) - u.y = v.origin.y - s.y := by ring
  cases s
  cases t
  simp only [toPlane, pan, Point.mk.injEq, Pixel.mk.injEq, x, y, div_left_inj' h, sub_left_inj,
    sub_right_inj]

end View

namespace Board

/-! ## A press that is held -/

/-- A board `b` on which a press is held: where it began, where the pointer is now, and whether it
has become a drag. -/
structure Held (b c : Board α) (press last : Pixel α) (dragging : Bool) : Prop where
  pointer : c.pointer = ⟨some press, some last, dragging, b.pointer.pinch⟩
  rest : { c with view := b.view, hovered := b.hovered, pointer := b.pointer } = b

namespace Held
variable {b c : Board α} {press last : Pixel α} {dragging : Bool}

theorem pointerDown (b : Board α) (press : Pixel α) :
    Held b (b.pointerDown press) press press false :=
  ⟨rfl, rfl⟩

/-- Nothing has changed but the window, the label under the pointer and the pointer. -/
theorem eq (h : Held b c press last dragging) :
    c = { b with view := c.view, hovered := c.hovered, pointer := c.pointer } := by
  conv_rhs => rw [← h.rest]

theorem released_eq (h : Held b c press last dragging) :
    c.released =
      { b with
        view := c.view
        hovered := c.hovered
        pointer := ⟨none, none, false, b.pointer.pinch⟩ } := by
  have eq := congrArg Board.released h.eq
  rw [h.pointer] at eq
  exact eq

end Held

/-! ## Moving along -/

section Paths
variable [Scalar α] [Hypot α]

/-- Whether a position is too far from where a press began for the press to be a click. -/
def strays (press s : Pixel α) : Bool := dragThreshold < pixelDistance s press

/-- The board after the pointer has moved along a path. -/
def pulled (b : Board α) (path : List (Pixel α)) : Board α :=
  path.foldl (fun b s => (b.pointerMove s).2) b

/-- The board under a press after the pointer has moved along a path. -/
def pressed (b : Board α) (press : Pixel α) (path : List (Pixel α)) : Board α :=
  (b.pointerDown press).pulled path

theorem pulled_append (b : Board α) (near far : List (Pixel α)) :
    b.pulled (near ++ far) = (b.pulled near).pulled far :=
  List.foldl_append

namespace Held
variable {b c : Board α} {press last : Pixel α} {dragging : Bool}

theorem drag_eq (h : Held b c press last dragging) (s : Pixel α) :
    c.drag s =
      { c with
        pointer := ⟨some press, some s, dragging || strays press s, b.pointer.pinch⟩
        view := if dragging || strays press s then c.view.pan (s.x - last.x) (s.y - last.y)
          else c.view } := by
  unfold drag
  rw [h.pointer]
  rfl

/-- A drag once begun goes on, and a press that strays becomes one. -/
theorem move (h : Held b c press last dragging) (s : Pixel α) :
    Held b (c.pointerMove s).2 press s (dragging || strays press s) := by
  rw [pointerMove, h.drag_eq s]
  exact ⟨rfl, h.rest⟩

theorem view_move (h : Held b c press last dragging) (s : Pixel α) :
    (c.pointerMove s).2.view =
      if dragging || strays press s then c.view.pan (s.x - last.x) (s.y - last.y)
      else c.view := by
  rw [pointerMove, h.drag_eq s]
  rfl

/-- So a press has become a drag if any position strayed. -/
theorem pulled (h : Held b c press last dragging) (path : List (Pixel α)) :
    Held b (c.pulled path) press (path.getLastD last) (dragging || path.any (strays press)) := by
  induction path generalizing c last dragging with
  | nil =>
    rw [List.any_nil, Bool.or_false]
    exact h
  | cons s path ih =>
    rw [List.getLastD_cons, List.any_cons, ← Bool.or_assoc]
    exact ih (h.move s)

/-- The window stands still as long as no position strays. -/
theorem view_near (h : Held b c press last false) {path : List (Pixel α)}
    (near : path.any (strays press) = false) : (c.pulled path).view = c.view := by
  induction path generalizing c last with
  | nil => rfl
  | cons s path ih =>
    rw [List.any_cons, Bool.or_eq_false_iff] at near
    have next := h.move s
    have still := h.view_move s
    rw [near.1] at next still
    exact (ih next near.2).trans still

theorem pointerUp (h : Held b c press last dragging) (s : Pixel α) :
    c.pointerUp s = if dragging then (.ok none, c.released) else c.released.click s := by
  have wasClick : (c.pointer.press.isSome && !c.pointer.dragging) = !dragging := by
    rw [h.pointer]
    rfl
  unfold Board.pointerUp
  rw [wasClick]
  cases dragging <;> rfl

end Held

/-! ## A release -/

/-- A click is the same whether or not a press has ended. -/
theorem click_released (b : Board α) (s : Pixel α) :
    b.released.click s = ((b.click s).1, (b.click s).2.released) := by
  have held : b.click s = (b.silenced.click s).backedBy b.backstage :=
    onstage_click s b.silenced b.backstage
  have ended : b.released.click s = (b.silenced.click s).backedBy b.released.backstage :=
    onstage_click s b.silenced b.released.backstage
  rw [ended, held]
  rfl

theorem any_strays_iff {press : Pixel α} {path : List (Pixel α)} :
    path.any (strays press) = true ↔ ∃ p ∈ path, dragThreshold < pixelDistance p press := by
  simp [strays]

/-- A press of which no position strayed leaves the window alone, and its release clicks. After any
other press the release does nothing but end it: all that has changed are the window and the label
under the pointer, even if the pointer came back. -/
theorem release_clicks_or_ends (b : Board α) (press : Pixel α) (path : List (Pixel α))
    (s : Pixel α) :
    ((∀ p ∈ path, ¬ dragThreshold < pixelDistance p press) →
      b.pressed press path =
        { b with
          hovered := (b.pressed press path).hovered
          pointer := ⟨some press, some (path.getLastD press), false, b.pointer.pinch⟩ } ∧
      (b.pressed press path).pointerUp s =
        (((b.pressed press path).click s).1, ((b.pressed press path).click s).2.released)) ∧
    ((∃ p ∈ path, dragThreshold < pixelDistance p press) →
      (b.pressed press path).pointerUp s =
        (.ok none,
          { b with
            view := (b.pressed press path).view
            hovered := (b.pressed press path).hovered
            pointer := ⟨none, none, false, b.pointer.pinch⟩ })) := by
  have start := Held.pointerDown b press
  have held : Held b (b.pressed press path) press (path.getLastD press)
      (path.any (strays press)) := start.pulled path
  constructor
  · intro near
    have none : path.any (strays press) = false := by
      rw [Bool.eq_false_iff, ne_eq, any_strays_iff]
      rintro ⟨p, hp, far⟩
      exact near p hp far
    rw [none] at held
    have window : (b.pressed press path).view = b.view := start.view_near none
    refine ⟨?_, ?_⟩
    · have eq := held.eq
      rwa [held.pointer, window] at eq
    · rw [held.pointerUp s, click_released]
      rfl
  · intro far
    rw [any_strays_iff.2 far] at held
    rw [held.pointerUp s, held.released_eq]
    rfl

/-- Where the pointer was when the press became a drag: the last position before the first one that
strayed. -/
def grip (press : Pixel α) (path : List (Pixel α)) : Pixel α :=
  (path.takeWhile fun s => !strays press s).getLastD press

end Paths

/-- In a session a press and a path are an action each. -/
theorem afterAll_press [Coordinate α] (b : Board α) (press : Pixel α) (path : List (Pixel α)) :
    b.afterAll (.pointerDown press :: path.map .pointerMove) = b.pressed press path := by
  unfold afterAll
  rw [List.foldl_cons, List.foldl_map]
  rfl

/-- A press on the box of a side that wanders off and comes back claims nothing, and one that stays
near claims the side. -/
theorem release_clicks_or_ends_of_return : ∃ b : Board Float, b.Reachable ∧
    dragThreshold < pixelDistance ⟨304.0, 180.0⟩ (⟨300.0, 180.0⟩ : Pixel Float) ∧
    ((b.pressed ⟨300.0, 180.0⟩ [⟨304.0, 180.0⟩, ⟨300.0, 180.0⟩]).pointerUp ⟨300.0, 180.0⟩).1 =
      .ok none ∧
    ¬ dragThreshold < pixelDistance ⟨301.0, 181.0⟩ (⟨300.0, 180.0⟩ : Pixel Float) ∧
    ((b.pressed ⟨300.0, 180.0⟩ [⟨301.0, 181.0⟩]).pointerUp ⟨301.0, 181.0⟩).1 =
      .ok (some .correct) := by
  have far : dragThreshold < pixelDistance ⟨304.0, 180.0⟩ (⟨300.0, 180.0⟩ : Pixel Float) := by
    decide +kernel
  have near : ¬ dragThreshold < pixelDistance ⟨301.0, 181.0⟩ (⟨300.0, 180.0⟩ : Pixel Float) := by
    decide +kernel
  obtain ⟨b, made, run⟩ := exists_made (p := fun b =>
    ((((b.after (.add "y >= 0")).pressed ⟨300.0, 180.0⟩ [⟨301.0, 181.0⟩]).click
      ⟨301.0, 181.0⟩).1.toOption.any fun f => f == some .correct)) (by decide +kernel)
  simp only [Option.any_eq_true, beq_iff_eq] at run
  obtain ⟨f, hf, rfl⟩ := run
  refine ⟨b.after (.add "y >= 0"), (Reachable.made made).after _, far, ?_, near, ?_⟩
  · have back := (release_clicks_or_ends (b.after (.add "y >= 0")) ⟨300.0, 180.0⟩
      [⟨304.0, 180.0⟩, ⟨300.0, 180.0⟩] ⟨300.0, 180.0⟩).2 ⟨_, List.mem_cons_self, far⟩
    rw [back]
  · have stays := (release_clicks_or_ends (b.after (.add "y >= 0")) ⟨300.0, 180.0⟩
      [⟨301.0, 181.0⟩] ⟨301.0, 181.0⟩).1 fun p hp => List.mem_singleton.1 hp ▸ near
    rw [stays.2]
    exact ok_of_toOption hf

/-! ## Where a drag takes the window -/

section Exact
variable {K : Type} [Field K] [LinearOrder K] [Hypot K]

/-- The ways of a drag from one position to the next add up. -/
theorem Held.view_drag {b c : Board K} {press last : Pixel K} (h : Held b c press last true)
    (path : List (Pixel K)) :
    (c.pulled path).view =
      c.view.pan ((path.getLastD last).x - last.x) ((path.getLastD last).y - last.y) := by
  induction path generalizing c last with
  | nil => simp [Board.pulled, View.pan]
  | cons s path ih =>
    have moved : (c.pointerMove s).2.view = c.view.pan (s.x - last.x) (s.y - last.y) := h.view_move s
    rw [List.getLastD_cons]
    show ((c.pointerMove s).2.pulled path).view = _
    rw [ih (h.move s), moved, View.pan_pan_sub]

/-- A path on which some position strays, cut before the first one that does. -/
theorem exists_stray {press : Pixel K} {path : List (Pixel K)}
    (far : ∃ p ∈ path, dragThreshold < pixelDistance p press) :
    ∃ near s rest, path = near ++ s :: rest ∧ near.any (strays press) = false ∧
      strays press s = true ∧ grip press path = near.getLastD press := by
  have split := List.takeWhile_append_dropWhile (p := fun s => !strays press s) (l := path)
  cases tail : path.dropWhile fun s => !strays press s with
  | nil =>
    obtain ⟨p, hp, far⟩ := far
    have near := List.dropWhile_eq_nil_iff.1 tail p hp
    rw [strays, decide_eq_true far] at near
    cases near
  | cons s rest =>
    rw [tail] at split
    refine ⟨_, s, rest, split.symm, ?_, ?_, rfl⟩
    · rw [List.any_eq_false]
      intro p hp
      simpa using List.mem_takeWhile_imp hp
    · have first := List.head?_dropWhile_not (fun s => !strays press s) path
      rw [tail] at first
      simpa using first

/-- The window has moved by the way from the grip to the pointer. -/
theorem view_pressed (b : Board K) {press : Pixel K} {path : List (Pixel K)}
    (far : ∃ p ∈ path, dragThreshold < pixelDistance p press) :
    (b.pressed press path).view =
      b.view.pan ((path.getLastD press).x - (grip press path).x)
        ((path.getLastD press).y - (grip press path).y) := by
  obtain ⟨near, s, rest, rfl, still, strayed, grip⟩ := exists_stray far
  have start := Held.pointerDown b press
  have held := start.pulled near
  rw [still, Bool.false_or] at held
  have moved := held.view_move s
  have began := held.move s
  rw [strayed, Bool.false_or, if_pos rfl, start.view_near still] at moved
  rw [strayed, Bool.false_or] at began
  have whole : b.pressed press (near ++ s :: rest) =
      (((b.pointerDown press).pulled near).pointerMove s).2.pulled rest := by
    rw [pressed, pulled_append]
    rfl
  have last : (near ++ s :: rest).getLastD press = rest.getLastD s := by
    simp [List.getLastD_eq_getLast?, List.getLast?_cons]
  rw [whole, began.view_drag rest, moved, grip, last, View.pan_pan_sub]
  rfl

/-- What a drag does to the window depends on where it ends and on its grip only. The window has
moved by the whole way of the pointer, and the point that was pressed is under the pointer again,
exactly if the press became a drag where it began; and paths to the same end take the window to the
same place exactly if their grips are the same. -/
theorem drag_follows_iff (b : Board K) {press : Pixel K} {path : List (Pixel K)}
    (far : ∃ p ∈ path, dragThreshold < pixelDistance p press) :
    (b.pressed press path).view =
      b.view.pan ((path.getLastD press).x - (grip press path).x)
        ((path.getLastD press).y - (grip press path).y) ∧
    ((b.pressed press path).view =
        b.view.pan ((path.getLastD press).x - press.x) ((path.getLastD press).y - press.y) ↔
      grip press path = press) ∧
    (b.view.zoom ≠ 0 →
      (b.pressed press path).view.toPlane (path.getLastD press) = b.view.toPlane (grip press path) ∧
      ((b.pressed press path).view.toPlane (path.getLastD press) = b.view.toPlane press ↔
        grip press path = press)) ∧
    ∀ other : List (Pixel K), (∃ p ∈ other, dragThreshold < pixelDistance p press) →
      other.getLastD press = path.getLastD press →
      ((b.pressed press other).view = (b.pressed press path).view ↔
        grip press other = grip press path) := by
  have moved := view_pressed b far
  refine ⟨moved, ?_, fun zoom => ⟨?_, ?_⟩, ?_⟩
  · rw [moved, View.pan_sub_inj]
  · rw [moved, View.toPlane_pan_sub zoom]
  · rw [moved, View.toPlane_pan_sub zoom]
  · intro other otherFar last
    rw [moved, view_pressed b otherFar, last, View.pan_sub_inj]

end Exact

theorem strays_iff_real {x : ℝ} :
    dragThreshold < pixelDistance ⟨x, 0⟩ (⟨0, 0⟩ : Pixel ℝ) ↔ 3 < |x| := by
  have threshold : (dragThreshold : ℝ) = 3 := by
    unfold dragThreshold
    norm_num
  rw [threshold, pixelDistance, sub_zero, sub_zero, hypot_zero_right]

/-- A press that jumps away has its point under the pointer again. -/
theorem drag_follows_of_jump :
    (∃ p ∈ [⟨4, 0⟩, ⟨1, 0⟩], dragThreshold < pixelDistance p (⟨0, 0⟩ : Pixel ℝ)) ∧
    ((LinearForm.boardOf .faint).pressed ⟨0, 0⟩ [⟨4, 0⟩, ⟨1, 0⟩]).view.origin = ⟨301, 300⟩ ∧
    ((LinearForm.boardOf .faint).pressed ⟨0, 0⟩ [⟨4, 0⟩, ⟨1, 0⟩]).view.toPlane ⟨1, 0⟩ =
      (LinearForm.boardOf .faint).view.toPlane ⟨0, 0⟩ := by
  have far : dragThreshold < pixelDistance ⟨4, 0⟩ (⟨0, 0⟩ : Pixel ℝ) :=
    strays_iff_real.2 (by norm_num)
  have strays : ∃ p ∈ [⟨4, 0⟩, ⟨1, 0⟩], dragThreshold < pixelDistance p (⟨0, 0⟩ : Pixel ℝ) :=
    ⟨_, List.mem_cons_self, far⟩
  have grip : grip ⟨0, 0⟩ [⟨4, 0⟩, ⟨1, 0⟩] = (⟨0, 0⟩ : Pixel ℝ) := by
    simp [grip, Board.strays, far]
  obtain ⟨-, whole, under, -⟩ := drag_follows_iff (LinearForm.boardOf .faint) strays
  refine ⟨strays, ?_, ?_⟩
  · rw [whole.2 grip]
    norm_num [View.pan, LinearForm.boardOf]
  · exact (under (by norm_num [LinearForm.boardOf])).2.2 grip

theorem not_always_follows :
    ¬ ∀ (b : Board ℝ) (press : Pixel ℝ) (path : List (Pixel ℝ)),
      (∃ p ∈ path, dragThreshold < pixelDistance p press) →
      (b.pressed press path).view =
        b.view.pan ((path.getLastD press).x - press.x) ((path.getLastD press).y - press.y) := by
  intro always
  have far : dragThreshold < pixelDistance ⟨4, 0⟩ (⟨0, 0⟩ : Pixel ℝ) :=
    strays_iff_real.2 (by norm_num)
  have near : ¬ dragThreshold < pixelDistance ⟨2, 0⟩ (⟨0, 0⟩ : Pixel ℝ) :=
    fun far => absurd (strays_iff_real.1 far) (by norm_num)
  have strays : ∃ p ∈ [⟨2, 0⟩, ⟨4, 0⟩], dragThreshold < pixelDistance p (⟨0, 0⟩ : Pixel ℝ) :=
    ⟨_, List.mem_cons_of_mem _ List.mem_cons_self, far⟩
  have grip : grip ⟨0, 0⟩ [⟨2, 0⟩, ⟨4, 0⟩] = (⟨2, 0⟩ : Pixel ℝ) := by
    simp [grip, Board.strays, near, far]
  have follows := always (LinearForm.boardOf .faint) _ _ strays
  rw [view_pressed _ strays, grip, View.pan_sub_inj] at follows
  norm_num at follows

end Board
end HalfPlane
