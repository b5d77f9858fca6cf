/-
What a frame writes beside the solved corners, and what they were graded against.

The coordinates of a corner are graded by their texts with one decimal place, where a zero has no
sign. A frame writes them with one decimal place too, but keeps the sign of a number that is rounded
to zero from below (`HidesSign`). So the two are the same exactly for the corners without such a
coordinate (`Reachable.captions_graded_iff`).
-/
import HalfPlane.Board.Picture
import HalfPlane.Proofs.Board.Statuses
import HalfPlane.Proofs.Decimal.Fixed
import HalfPlane.Proofs.Scene.Frame

namespace HalfPlane
open Scalar

/-! ## One decimal place -/

section OneDecimal
variable {α : Type} [Exact α]

/-- A number with the sign of the negative ones of which one decimal place shows only zeros. -/
def HidesSign (x : α) : Prop := ∃ m, Exact.numeral x = .finite true m ∧ m ≤ 1 / 20

theorem fixedText_eq_iff {x : α} : fixedText 1 x = "-0.0" ↔ HidesSign x := by
  rw [fixedText, HidesSign]
  cases Exact.numeral x with
  | notANumber => simp [Numeral.text]
  | infinite negative => cases negative <;> simp [Numeral.text]
  | finite negative m =>
    cases negative with
    | false =>
      have signless : Decimal.fixed 1 m ≠ "-" ++ "0.0" := Decimal.fixed_one_ne
      simpa [Numeral.text] using signless
    | true =>
      have cut : "-" ++ Decimal.fixed 1 m = "-" ++ "0.0" ↔ m ≤ 1 / 20 := by
        rw [String.append_right_inj, Decimal.fixed_one_eq_zero_iff]
      simpa [Numeral.text] using cut

theorem oneDecimal_eq_iff {x : α} : oneDecimal x = fixedText 1 x ↔ ¬ HidesSign x := by
  rw [← fixedText_eq_iff, oneDecimal]
  split
  · next hidden => simp [hidden]
  · next shown => exact iff_of_true rfl shown

/-- Without its sign a text is shorter. -/
theorem length_oneDecimal (x : α) :
    (oneDecimal x).length ≤ (fixedText 1 x).length ∧
      ((fixedText 1 x).length ≤ (oneDecimal x).length → oneDecimal x = fixedText 1 x) := by
  rw [oneDecimal]
  split
  · next hidden =>
    rw [hidden]
    decide
  · exact ⟨le_rfl, fun _ => rfl⟩

theorem Scene.coordinates_eq_iff {p : Point α} :
    coordinates (fixedText 1) p = coordinates oneDecimal p ↔ ¬ HidesSign p.x ∧ ¬ HidesSign p.y := by
  rw [← oneDecimal_eq_iff, ← oneDecimal_eq_iff]
  constructor
  · intro same
    have lengths := congrArg String.length same
    simp only [coordinates, String.length_append] at lengths
    obtain ⟨x, exactX⟩ := length_oneDecimal p.x
    obtain ⟨y, exactY⟩ := length_oneDecimal p.y
    exact ⟨exactX (by omega), exactY (by omega)⟩
  · rintro ⟨x, y⟩
    rw [coordinates, coordinates, x, y]

end OneDecimal

namespace Board

/-! ## The solved corners of a board -/

theorem rating_eq_iff {α : Type} [Scalar α] [Readable α] [Exact α] {p : Point α}
    {xText yText : String} :
    rating p xText yText = some (true, true) ↔
      ∃ x y : α, readCoordinate xText = some x ∧ readCoordinate yText = some y ∧
        oneDecimal x = oneDecimal p.x ∧ oneDecimal y = oneDecimal p.y := by
  unfold rating
  cases (readCoordinate xText : Option α) with
  | none => simp
  | some x =>
    cases (readCoordinate yText : Option α) with
    | none => simp
    | some y => simp

section Captions
variable {α : Type} [Scalar α]

/-- The solved corners of a board: where a text beside each of them stands, and its coordinates
written by `write`. -/
def captions (write : α → String) (b : Board α) : List (Pixel α × String) :=
  (b.vertices.filter (·.status = .solved)).map fun v =>
    (⟨(b.view.toScreen v.point).x + 8.0, (b.view.toScreen v.point).y - 8.0⟩,
      Scene.coordinates write v.point)

theorem captions_eq_iff [Exact α] {b : Board α} :
    b.captions (fixedText 1) = b.captions oneDecimal ↔
      ∀ v ∈ b.vertices, v.status = .solved → ¬ HidesSign v.point.x ∧ ¬ HidesSign v.point.y := by
  rw [captions, captions, List.map_inj_left]
  simp only [List.mem_filter, decide_eq_true_eq, Prod.mk.injEq, true_and,
    Scene.coordinates_eq_iff, and_imp]

end Captions

/-- A frame writes the coordinates of the solved corners beside them. Naming the coordinates of a
corner solves it if their texts without the sign of a zero are those of the corner. What a frame
writes are these texts exactly if no solved corner hides the sign of a coordinate. -/
theorem Reachable.captions_graded_iff {b : Board Float} (h : b.Reachable)
    {frame : List (Mark Float)} (drawn : b.scene = .ok frame) :
    frame.filterMap Mark.caption? = b.captions (fixedText 1) ∧
    (frame.filterMap Mark.caption? = b.captions oneDecimal ↔
      ∀ v ∈ b.vertices, v.status = .solved → ¬ HidesSign v.point.x ∧ ¬ HidesSign v.point.y) ∧
    ∀ (i : Nat) (v : Vertex Float), b.selected = some i → b.vertices[i]? = some v →
      v.status ≠ .solved → ∀ xText yText : String,
        ∃ w, (b.after (.submit xText yText)).vertices[i]? = some w ∧ w.point = v.point ∧
          (w.status = .solved ↔
            ∃ x y : Float, readCoordinate xText = some x ∧ readCoordinate yText = some y ∧
              oneDecimal x = oneDecimal v.point.x ∧ oneDecimal y = oneDecimal v.point.y) := by
  have written : frame.filterMap Mark.caption? = b.captions (fixedText 1) :=
    Scene.filterMap_caption? (c := b.content) drawn
  refine ⟨written, ?_, fun i v selected hv unsolved xText yText => ?_⟩
  · rw [written, captions_eq_iff]
  · obtain ⟨w, hw, point, status⟩ := h.sound.status_graded xText yText selected hv unsolved
    refine ⟨w, hw, point, ?_⟩
    rw [status, Status.rated_eq_solved_iff unsolved, rating_eq_iff]

/-- A crossing to the left of the origin that is named. -/
def named : List (Action Float) := [.add "x + 2 = 0", .add "y - 1 = 0", .select 0, .submit "-2" "1"]

theorem captions_graded_of_named : ∃ (b : Board Float) (frame : List (Mark Float)),
    b.Reachable ∧ b.scene = .ok frame ∧
      (frame.filterMap Mark.caption?).map (·.2) = ["(-2.0, 1.0)"] ∧
      frame.filterMap Mark.caption? = b.captions oneDecimal := by
  obtain ⟨b₀, made, run⟩ := exists_made (p := fun b =>
    let b := b.afterAll named
    b.scene.toOption.isSome && (b.captions (fixedText 1)).map (·.2) == ["(-2.0, 1.0)"] &&
      b.vertices.all fun v => fixedText 1 v.point.x != "-0.0" && fixedText 1 v.point.y != "-0.0")
    (by decide +kernel)
  have reachable := (Reachable.made made).afterAll named
  generalize b₀.afterAll named = b at run reachable
  simp only [Bool.and_eq_true, beq_iff_eq, List.all_eq_true, bne_iff_ne, ne_eq,
    fixedText_eq_iff, Option.isSome_iff_exists] at run
  obtain ⟨⟨⟨frame, drawn⟩, texts⟩, shown⟩ := run
  obtain ⟨written, same, -⟩ := reachable.captions_graded_iff (ok_of_toOption drawn)
  refine ⟨b, frame, reachable, ok_of_toOption drawn, ?_, same.2 fun v hv _ => shown v hv⟩
  rw [written, texts]

/-- A crossing a little to the left of the origin that is named. -/
def slightlyLeft : List (Action Float) :=
  [.add "x + 0.01 = 0", .add "y = 0", .select 0, .submit "0" "0"]

theorem not_always_captioned :
    ¬ ∀ b : Board Float, b.Reachable → ∀ frame : List (Mark Float), b.scene = .ok frame →
      frame.filterMap Mark.caption? = b.captions oneDecimal := by
  intro always
  obtain ⟨b₀, made, run⟩ := exists_made (p := fun b =>
    let b := b.afterAll slightlyLeft
    b.scene.toOption.isSome && (b.captions (fixedText 1)).map (·.2) == ["(-0.0, 0.0)"] &&
      (b.captions oneDecimal).map (·.2) == ["(0.0, 0.0)"])
    (by decide +kernel)
  have reachable := (Reachable.made made).afterAll slightlyLeft
  generalize b₀.afterAll slightlyLeft = b at run reachable
  simp only [Bool.and_eq_true, beq_iff_eq, Option.isSome_iff_exists] at run
  obtain ⟨⟨⟨frame, drawn⟩, texts⟩, graded⟩ := run
  have same := always b reachable frame (ok_of_toOption drawn)
  have written : frame.filterMap Mark.caption? = b.captions (fixedText 1) :=
    Scene.filterMap_caption? (c := b.content) (ok_of_toOption drawn)
  rw [← same, written, texts] at graded
  exact absurd graded (by decide)

end Board
end HalfPlane
