/-
The part of a segment that a window shows, in exact arithmetic.

A segment is run through by a parameter from zero to one, and each edge of the window narrows the
range of that parameter to where the segment is on the inner side of it (`exists_cut_iff`). So the
range that is left by all four edges is where the segment is inside the window
(`exists_shown_iff`). It is never empty (`le_of_shown`), so none is left exactly when the window
shows nothing, and its ends are the ends of what the window shows (`segment_is_visible`).
-/
import Mathlib.Algebra.Order.Field.Basic
import Mathlib.Tactic.FieldSimp
import Mathlib.Tactic.Linarith
import Mathlib.Tactic.NormNum
import Mathlib.Tactic.Ring
import HalfPlane.Proofs.Exact
import HalfPlane.Scene.Clip

namespace HalfPlane.Clip
open Scalar

/-! ## Segments and windows -/

section Field
variable {K : Type} [Field K] [LinearOrder K]

/-- The point that has gone the part `r` of the way from one point to another. -/
def along (s t : Pixel K) (r : K) : Pixel K := ⟨s.x + r * (t.x - s.x), s.y + r * (t.y - s.y)⟩

/-- A point of the segment between two points, its ends included. -/
def OnSegment (s t p : Pixel K) : Prop := ∃ r, 0 ≤ r ∧ r ≤ 1 ∧ p = along s t r

/-- A point of a window of this size, its edges included. -/
def InWindow (width height : K) (p : Pixel K) : Prop :=
  (0 ≤ p.x ∧ p.x ≤ width) ∧ 0 ≤ p.y ∧ p.y ≤ height

def Within (range : K × K) (r : K) : Prop := range.1 ≤ r ∧ r ≤ range.2

variable [IsStrictOrderedRing K]

/-- The edges ask for what it takes to be inside the window. -/
theorem forall_edges_iff (s t : Pixel K) (width height r : K) :
    (∀ e ∈ edges s (t.x - s.x) (t.y - s.y) width height, e.1 * r ≤ e.2) ↔
      InWindow width height (along s t r) := by
  simp only [edges, List.forall_mem_cons, List.not_mem_nil, IsEmpty.forall_iff, implies_true,
    and_true, InWindow, along]
  constructor
  · rintro ⟨left, right, top, bottom⟩
    exact ⟨⟨by linarith, by linarith⟩, by linarith, by linarith⟩
  · rintro ⟨⟨left, right⟩, top, bottom⟩
    exact ⟨by linarith, by linarith, by linarith, by linarith⟩

omit [IsStrictOrderedRing K] in
theorem along_along (s t : Pixel K) (low high r : K) :
    along (along s t low) (along s t high) r = along s t (low + r * (high - low)) := by
  simp only [along, Pixel.mk.injEq]
  constructor <;> ring

/-- The points between two points of a segment. -/
theorem onSegment_along_iff (s t : Pixel K) {low high : K} (h : low ≤ high) (p : Pixel K) :
    OnSegment (along s t low) (along s t high) p ↔ ∃ r, Within (low, high) r ∧ p = along s t r := by
  constructor
  · rintro ⟨r, nonneg, le_one, rfl⟩
    have span : 0 ≤ high - low := sub_nonneg.2 h
    refine ⟨low + r * (high - low), ⟨?_, ?_⟩, along_along s t low high r⟩
    · have := mul_nonneg nonneg span
      dsimp only
      linarith
    · have := mul_le_mul_of_nonneg_right le_one span
      dsimp only
      linarith
  · rintro ⟨r, ⟨above, below⟩, rfl⟩
    dsimp only at above below
    rcases h.eq_or_lt with rfl | wide
    · refine ⟨0, le_rfl, zero_le_one, ?_⟩
      rw [along_along, le_antisymm below above]
      congr 1
      ring
    · have span : 0 < high - low := sub_pos.2 wide
      refine ⟨(r - low) / (high - low), div_nonneg (by linarith) span.le, ?_, ?_⟩
      · rw [div_le_one span]
        linarith
      · rw [along_along, div_mul_cancel₀ _ span.ne']
        congr 1
        ring

/-! ## Ranges -/

omit [IsStrictOrderedRing K] in
/-- A range is given up when nothing is in it. -/
theorem exists_kept_iff (range : K × K) (r : K) :
    (∃ range', (if range.2 < range.1 then none else some range) = some range' ∧
      Within range' r) ↔ Within range r := by
  split
  · next empty =>
    constructor
    · rintro ⟨_, h, -⟩
      cases h
    · intro h
      exact absurd (h.1.trans h.2) (not_le.2 empty)
  · constructor
    · rintro ⟨_, h, within⟩
      cases h
      exact within
    · intro h
      exact ⟨range, rfl, h⟩

/-- An edge leaves exactly what it asks for. -/
theorem exists_cut_iff (range edge : K × K) (r : K) :
    (∃ range', cut range edge = some range' ∧ Within range' r) ↔
      Within range r ∧ edge.1 * r ≤ edge.2 := by
  obtain ⟨low, high⟩ := range
  obtain ⟨p, q⟩ := edge
  simp only [cut, isZero_iff_eq, decimal_zero, atLeast_eq, atMost_eq]
  rcases lt_trichotomy p 0 with neg | rfl | pos
  · -- The range is cut off below.
    have asks : p * r ≤ q ↔ q / p ≤ r := by rw [div_le_iff_of_neg neg, mul_comm]
    rw [if_neg neg.ne, if_pos neg, exists_kept_iff, asks]
    simp only [Within, max_le_iff]
    tauto
  · -- The edge runs along the segment.
    by_cases outside : q < 0
    · rw [if_pos rfl, if_pos outside]
      simp only [zero_mul]
      constructor
      · rintro ⟨_, h, -⟩
        cases h
      · rintro ⟨-, inside⟩
        exact absurd inside (not_le.2 outside)
    · rw [if_pos rfl, if_neg outside]
      simp only [zero_mul, Option.some.injEq, exists_eq_left']
      exact (and_iff_left (not_lt.1 outside)).symm
  · -- The range is cut off above.
    have asks : p * r ≤ q ↔ r ≤ q / p := by rw [le_div_iff₀ pos, mul_comm]
    rw [if_neg pos.ne', if_neg pos.not_gt, exists_kept_iff, asks]
    simp only [Within, le_min_iff]
    tauto

theorem exists_range_iff (edges : List (K × K)) (range : K × K) (r : K) :
    (∃ range', edges.foldlM cut range = some range' ∧ Within range' r) ↔
      Within range r ∧ ∀ e ∈ edges, e.1 * r ≤ e.2 := by
  induction edges generalizing range with
  | nil => simp
  | cons e edges ih =>
    rw [List.foldlM_cons, List.forall_mem_cons, ← and_assoc, ← exists_cut_iff]
    cases cut range e with
    | none => simp
    | some narrowed => simpa using ih narrowed

omit [IsStrictOrderedRing K] in
theorem le_of_cut {range range' edge : K × K} (h : cut range edge = some range')
    (nonempty : range.1 ≤ range.2) : range'.1 ≤ range'.2 := by
  simp only [cut] at h
  split at h
  · split at h
    · cases h
    · cases h
      exact nonempty
  · generalize (if edge.1 < 0.0 then _ else _ : K × K) = narrowed at h
    split at h
    · cases h
    · next full =>
      cases h
      exact not_lt.1 full

omit [IsStrictOrderedRing K] in
theorem le_of_range {edges : List (K × K)} {range range' : K × K}
    (h : edges.foldlM cut range = some range') (nonempty : range.1 ≤ range.2) :
    range'.1 ≤ range'.2 := by
  induction edges generalizing range with
  | nil =>
    cases h
    exact nonempty
  | cons e edges ih =>
    rw [List.foldlM_cons] at h
    obtain ⟨narrowed, first, rest⟩ := Option.bind_eq_some_iff.1 h
    exact ih rest (le_of_cut first nonempty)

/-! ## What is shown -/

/-- The range that the edges of a window leave of a segment. -/
def shown (s t : Pixel K) (width height : K) : Option (K × K) :=
  (edges s (t.x - s.x) (t.y - s.y) width height).foldlM cut (0.0, 1.0)

omit [IsStrictOrderedRing K] in
theorem segment_eq (s t : Pixel K) (width height : K) :
    segment s t width height =
      (shown s t width height).map fun range => (along s t range.1, along s t range.2) := rfl

theorem exists_shown_iff (s t : Pixel K) (width height r : K) :
    (∃ range, shown s t width height = some range ∧ Within range r) ↔
      (0 ≤ r ∧ r ≤ 1) ∧ InWindow width height (along s t r) := by
  rw [shown, exists_range_iff, forall_edges_iff, Within, decimal_zero, decimal_one]

theorem not_inWindow_of_shown {s t : Pixel K} {width height : K}
    (h : shown s t width height = none) {p : Pixel K} (hp : OnSegment s t p) :
    ¬ InWindow width height p := by
  obtain ⟨r, nonneg, le_one, rfl⟩ := hp
  intro inside
  obtain ⟨range, found, -⟩ := (exists_shown_iff s t width height r).2 ⟨⟨nonneg, le_one⟩, inside⟩
  rw [h] at found
  cases found

theorem within_iff_of_shown {s t : Pixel K} {width height : K} {range : K × K}
    (h : shown s t width height = some range) (r : K) :
    Within range r ↔ (0 ≤ r ∧ r ≤ 1) ∧ InWindow width height (along s t r) := by
  rw [← exists_shown_iff, h]
  simp only [Option.some.injEq, exists_eq_left']

theorem le_of_shown {s t : Pixel K} {width height : K} {range : K × K}
    (h : shown s t width height = some range) : range.1 ≤ range.2 := by
  refine le_of_range h ?_
  rw [decimal_zero, decimal_one]
  exact zero_le_one

/-- What is cut from a segment is the part of it inside the window, its ends in the order of the
segment. Nothing is cut from it exactly if no point of it is inside. -/
theorem segment_is_visible (s t : Pixel K) (width height : K) :
    (segment s t width height = none ↔ ∀ p, OnSegment s t p → ¬ InWindow width height p) ∧
      ∀ near far, segment s t width height = some (near, far) →
        (∀ p, OnSegment near far p ↔ OnSegment s t p ∧ InWindow width height p) ∧
          ∃ low high, 0 ≤ low ∧ low ≤ high ∧ high ≤ 1 ∧ near = along s t low ∧
            far = along s t high := by
  rw [segment_eq]
  cases h : shown s t width height with
  | none =>
    refine ⟨iff_of_true rfl fun p hp => not_inWindow_of_shown h hp, fun near far found => ?_⟩
    cases found
  | some range =>
    have nonempty := le_of_shown h
    have within := within_iff_of_shown h
    obtain ⟨low, lowInside⟩ := (within range.1).1 ⟨le_rfl, nonempty⟩
    obtain ⟨high, -⟩ := (within range.2).1 ⟨nonempty, le_rfl⟩
    refine ⟨iff_of_false (fun found => by cases found) fun outside => ?_, fun near far found => ?_⟩
    · exact outside _ ⟨range.1, low.1, low.2, rfl⟩ lowInside
    · cases found
      refine ⟨fun p => ?_, range.1, range.2, low.1, nonempty, high.2, rfl, rfl⟩
      rw [onSegment_along_iff s t nonempty]
      constructor
      · rintro ⟨r, inside, rfl⟩
        obtain ⟨part, visible⟩ := (within r).1 inside
        exact ⟨⟨r, part.1, part.2, rfl⟩, visible⟩
      · rintro ⟨⟨r, nonneg, le_one, rfl⟩, visible⟩
        exact ⟨r, (within r).2 ⟨⟨nonneg, le_one⟩, visible⟩, rfl⟩

end Field

/-- A segment that crosses two edges of the window is shown between them, and one that passes
by a corner is not shown. -/
theorem segment_is_visible_crossing :
    (segment (⟨-2, -1⟩ : Pixel ℚ) ⟨4, 2⟩ 3 1 = some (⟨0, 0⟩, ⟨2, 1⟩) ∧
      ∀ p : Pixel ℚ, OnSegment ⟨0, 0⟩ ⟨2, 1⟩ p ↔ OnSegment ⟨-2, -1⟩ ⟨4, 2⟩ p ∧ InWindow 3 1 p) ∧
    ∀ p : Pixel ℚ, OnSegment ⟨-2, 0⟩ ⟨0, 2⟩ p → ¬ InWindow 3 1 p := by
  have crossing : segment (⟨-2, -1⟩ : Pixel ℚ) ⟨4, 2⟩ 3 1 = some (⟨0, 0⟩, ⟨2, 1⟩) := by
    norm_num [segment, edges, cut]
  have passing : segment (⟨-2, 0⟩ : Pixel ℚ) ⟨0, 2⟩ 3 1 = none := by
    norm_num [segment, edges, cut]
  exact ⟨⟨crossing, ((segment_is_visible _ _ _ _).2 _ _ crossing).1⟩,
    (segment_is_visible _ _ _ _).1.1 passing⟩

end HalfPlane.Clip
