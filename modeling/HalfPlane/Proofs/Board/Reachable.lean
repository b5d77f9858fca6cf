/-
What holds of a board of doubles at every moment of a session.

A board is reachable if it was newly made or an action led to it, refused or not. The
invariant holds of a new board and every action keeps it (`Reachable.sound`), and what
the parts of the board say of each other can be read off it: the corners are those of
the region claimed, references lead somewhere, and an action fails only for the causes
in `Refuses`.
-/
import HalfPlane.Proofs.Board.Refusal
import HalfPlane.Proofs.Double.Laws
import HalfPlane.Proofs.Geometry.Account

namespace HalfPlane
open Scalar
variable {α : Type}

namespace Board

/-! ## Sessions -/

section Sessions
variable [Coordinate α]

/-- A board that a session can come to. -/
inductive Reachable : Board α → Prop where
  | made {width height zoom : α} {palette : List String} {delay : Int} {b : Board α} :
      Board.make width height zoom palette delay = .ok b → Reachable b
  | after {b : Board α} (a : Action α) : Reachable b → Reachable (b.after a)

theorem Reachable.afterAll {b : Board α} (h : b.Reachable) :
    ∀ actions : List (Action α), (b.afterAll actions).Reachable
  | [] => h
  | a :: actions => (h.after a).afterAll actions

/-- The boards that can be reached are those after a run from a new board. -/
theorem reachable_iff {b : Board α} : b.Reachable ↔
    ∃ (width height zoom : α) (palette : List String) (delay : Int) (b₀ : Board α)
      (actions : List (Action α)),
      Board.make width height zoom palette delay = .ok b₀ ∧ b = b₀.afterAll actions := by
  constructor
  · intro h
    induction h with
    | @made width height zoom palette delay b h =>
      exact ⟨width, height, zoom, palette, delay, b, [], h, rfl⟩
    | after a h ih =>
      obtain ⟨width, height, zoom, palette, delay, b₀, actions, make, rfl⟩ := ih
      refine ⟨width, height, zoom, palette, delay, b₀, actions ++ [a], make, ?_⟩
      simp only [Board.afterAll, List.foldl_append, List.foldl_cons, List.foldl_nil]
  · rintro ⟨width, height, zoom, palette, delay, b₀, actions, make, rfl⟩
    exact (Reachable.made make).afterAll actions

variable [LawfulCoordinate α]

theorem sound_of_make {width height zoom : α} {palette : List String} {delay : Int} {b : Board α}
    (h : Board.make width height zoom palette delay = .ok b) : b.Sound := by
  obtain ⟨register, hr, h⟩ := bind_ok_iff.1 h
  obtain ⟨view, hv, h⟩ := bind_ok_iff.1 h
  obtain ⟨validator, -, h⟩ := bind_ok_iff.1 h
  cases h
  have given : register.given = [] := by
    unfold Register.ofPalette Register.make at hr
    split at hr
    · cases hr
    · split at hr
      · cases hr
      · cases hr; rfl
  refine ⟨?_, Register.honest_of_make hr, View.usual_of_centred hv⟩
  simp only [core, given]
  exact .empty

theorem Reachable.sound {b : Board α} (h : b.Reachable) : b.Sound := by
  induction h with
  | made h => exact sound_of_make h
  | after a _ ih => exact ih.after a

end Sessions

/-- A session on a new board of the usual size can be run to see what it comes to. -/
theorem exists_made {p : Board Float → Bool}
    (h : (Board.make 600.0 600.0 40.0 Register.standardPalette 300).toOption.any p = true) :
    ∃ b, Board.make 600.0 600.0 40.0 Register.standardPalette 300 = .ok b ∧ p b = true := by
  cases made : Board.make 600.0 600.0 40.0 Register.standardPalette 300 with
  | error e => rw [made] at h; cases h
  | ok b => rw [made] at h; exact ⟨b, rfl, h⟩

/-- A session with two equations whose lines cross, where the crossing is selected and
the pointer rests on the first line. -/
theorem exists_selected : ∃ b : Board Float, b.Reachable ∧ b.vertices.length = 1 ∧
    b.selected = some 0 ∧ b.hovered = some "d1" := by
  obtain ⟨b, made, run⟩ := exists_made (p := fun b =>
    let b := b.afterAll [.add "x = 0", .add "y = 0", .select 0, .pointerMove ⟨300.0, 100.0⟩]
    b.vertices.length == 1 && b.selected == some 0 && b.hovered == some "d1") (by decide +kernel)
  simp only [Bool.and_eq_true, beq_iff_eq] at run
  exact ⟨_, (Reachable.made made).afterAll _, run.1.1, run.1.2, run.2⟩

/-! ## The corners are those of the region claimed -/

theorem Reachable.vertices_are_corners {b : Board Float} (h : b.Reachable) :
    Corner.ofInequalities b.inequalities = .ok (b.vertices.map Vertex.corner) ∧
      ∀ v ∈ b.vertices, v.target = v.point :=
  ⟨h.sound.coherent.corners, h.sound.coherent.targets⟩

/-- Since every form that was read has a line, no corner of the region goes missing. -/
theorem Reachable.accounted {b : Board Float} (h : b.Reachable) :
    Corner.Accounted b.inequalities := by
  refine (Corner.accounted_iff Point.near_comm).2 (Corner.answerable_of_lines ?_)
  exact h.sound.lines.of_subset fun q hq => (List.mem_filter.1 hq).1

theorem vertices_are_corners_of_crossing : ∃ b : Board Float, b.Reachable ∧
    b.vertices.length = 1 ∧
    Corner.ofInequalities b.inequalities = .ok (b.vertices.map Vertex.corner) ∧
    ∀ v ∈ b.vertices, v.target = v.point := by
  obtain ⟨b, h, one, -, -⟩ := exists_selected
  exact ⟨b, h, one, h.vertices_are_corners⟩

/-! ## References -/

/-- The fields of a board that refer to others. -/
structure References (b : Board α) : Prop where
  different : (b.inequalities.map (·.label)).Nodup
  /-- They stand in the order in which they were given since the board was cleared. -/
  ordered : (b.inequalities.map (·.label)).Sublist b.register.given
  hovered : ∀ label, b.hovered = some label → ∃ q ∈ b.inequalities, q.label = label
  selected : ∀ i, b.selected = some i → ∃ v, b.vertices[i]? = some v ∧ v.status ≠ .unsolved
  /-- The equations are what is solved without a side. -/
  equations : ∀ q ∈ b.inequalities, q.solution = .solved none ↔ q.form.operator = .eq

theorem Reachable.references {b : Board Float} (h : b.Reachable) : b.References where
  different := h.sound.labels_nodup
  ordered := h.sound.coherent.labels
  hovered label hl := List.mem_map.1 (h.sound.coherent.hovered label hl)
  selected := h.sound.coherent.selected
  equations := h.sound.coherent.equations

theorem references_of_crossing : ∃ b : Board Float, b.Reachable ∧ b.selected = some 0 ∧
    b.hovered = some "d1" ∧ b.References := by
  obtain ⟨b, h, -, selected, hovered⟩ := exists_selected
  exact ⟨b, h, selected, hovered, h.references⟩

/-! ## Refusals -/

/-- What a board divides by without a check is not zero. -/
structure DividesSafely [Coordinate α] (b : Board α) : Prop where
  /-- The far points of a line are solved for one of the unknowns. -/
  second : ∀ q ∈ b.inequalities, tolerance ≤ Scalar.abs q.form.b → isZero q.form.b = false
  first : ∀ q ∈ b.inequalities, ¬ tolerance ≤ Scalar.abs q.form.b → isZero q.form.a = false
  determinant : ∀ det : α, negligible det = false → isZero det = false
  /-- The length of a line, of a normal and of a pinch. -/
  length : ∀ length : α, ¬ length < tolerance → isZero length = false
  zoom : isZero b.view.zoom = false

theorem Sound.dividesSafely [Coordinate α] [LawfulCoordinate α] {b : Board α} (h : b.Sound) :
    b.DividesSafely where
  second _ _ := isZero_of_tolerance_le_abs
  first q hq := (h.lines q hq).resolve_left
  determinant _ := isZero_of_counts
  length _ := isZero_of_not_lt
  zoom := h.usual.isZero_zoom

theorem get_error_iff {b : Board α} {label : String} {e : Fault} :
    b.get label = .error e ↔ b.Unknown label ∧ e = .unknownLabel label := by
  constructor
  · intro failed
    by_cases unknown : b.Unknown label
    · rw [get_unknown (find?_unknown unknown)] at failed
      cases failed
      exact ⟨unknown, rfl⟩
    · obtain ⟨q, -, -, found⟩ := find?_known unknown
      rw [get_found found] at failed
      cases failed
  · rintro ⟨unknown, rfl⟩
    exact get_unknown (find?_unknown unknown)

/-- Asking for an inequality fails exactly for unknown labels, an action other than
casting exactly for the causes in `Refuses`, and then the board is as it was. -/
theorem Reachable.refusals {b : Board Float} (h : b.Reachable) :
    (∀ label e, b.get label = .error e ↔ b.Unknown label ∧ e = .unknownLabel label) ∧
      (∀ a e, (∀ text, a ≠ .add text) →
        ((b.perform a).1 = .error e ↔ b.Refuses a e) ∧
          ((b.perform a).1 = .error e → b.after a = b)) ∧
      b.DividesSafely ∧ ∀ i, b.selected = some i → b.activeVertex.isSome := by
  refine ⟨fun label e => get_error_iff, fun a e notCasting => ?_, h.sound.dividesSafely,
    fun i hi => ?_⟩
  · have refused := perform_error_iff h.sound notCasting e
    refine ⟨refused, fun failed => ?_⟩
    unfold Board.after
    rw [perform_refused h.sound (refused.1 failed)]
  · obtain ⟨v, -, active⟩ := h.sound.activeVertex_of_selected hi
    rw [active]
    rfl

theorem refusals_of_crossing : ∃ b : Board Float, b.Reachable ∧ b.vertices.length = 1 ∧
    (b.perform (.select 1)).1 = .error (.noSuchVertex 1) ∧ b.after (.select 1) = b := by
  obtain ⟨b, h, one, -, -⟩ := exists_selected
  obtain ⟨refused, unchanged⟩ := h.refusals.2.1 (.select 1) (.noSuchVertex 1) (by simp)
  have failed := refused.2 (.select (by omega))
  exact ⟨b, h, one, failed, unchanged failed⟩

end Board
end HalfPlane
