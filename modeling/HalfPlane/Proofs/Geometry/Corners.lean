/-
The corners of a claimed region: inequalities with lines have them, and no two corners
are near each other.

Both follow the fold over the pairs of lines, the second with the invariant that the
corners found so far are apart.
-/
import HalfPlane.Geometry.Corners
import HalfPlane.Proofs.Geometry.Lines

namespace HalfPlane
open Scalar
variable {α : Type}

theorem Point.near_comm [Coordinate α] [LawfulCoordinate α] (p q : Point α) :
    p.near q = q.near p := by
  unfold Point.near
  rw [LawfulCoordinate.negligible_sub_comm p.x, LawfulCoordinate.negligible_sub_comm p.y]

/-! ## Ways to single out two elements -/

theorem of_mem_splits {β : Type} :
    ∀ {l before after : List β} {b : β}, (before, b, after) ∈ splits l → l = before ++ b :: after
  | [], _, _, _, h => by cases h
  | c :: l, before, after, b, h => by
    simp only [splits, List.mem_cons, List.mem_map, Prod.mk.injEq] at h
    rcases h with ⟨rfl, rfl, rfl⟩ | ⟨⟨before', b', after'⟩, h, rfl, rfl, rfl⟩
    · rfl
    · rw [of_mem_splits h]
      rfl

theorem others_subset {β : Type} {l others : List β} {b c : β}
    (h : (b, c, others) ∈ pairsWithOthers l) : others ⊆ l := by
  simp only [pairsWithOthers, List.mem_flatMap, List.mem_map, Prod.mk.injEq] at h
  obtain ⟨⟨before, b', after⟩, hb, ⟨between, c', rest⟩, hc, -, -, rfl⟩ := h
  have after_eq : after = between ++ c' :: rest := of_mem_splits hc
  rw [of_mem_splits hb, after_eq]
  intro x hx
  simp only [List.mem_append, List.mem_cons] at hx ⊢
  rcases hx with (hx | hx) | hx
  · exact .inl hx
  · exact .inr (.inr (.inl hx))
  · exact .inr (.inr (.inr (.inr hx)))

namespace Corner
variable [Scalar α] [Hypot α]

/-! ## Success -/

theorem allAccept_succeeds (p : Point α) :
    ∀ {qs : List (Inequality α)}, AllHaveLines qs → Succeeds (allAccept p qs)
  | [], _ => .ok _
  | q :: qs, h => by
    obtain ⟨line, rest⟩ := h.of_cons
    refine (line.accepts q.solution p).bind fun accepted => ?_
    cases accepted with
    | true => exact allAccept_succeeds p rest
    | false => exact .pure _

theorem extend_succeeds {q r : Inequality α} {others : List (Inequality α)}
    (h : AllHaveLines others) (found : List (Corner α)) :
    Succeeds (extend found (q, r, others)) := by
  simp only [extend]
  split
  · exact .ok _
  · next p _ =>
    refine (allAccept_succeeds p h).bind fun accepted => ?_
    cases accepted with
    | true => simp only [if_true]; split <;> exact .pure _
    | false => exact .pure _

theorem ofInequalities_succeeds {qs : List (Inequality α)} (h : AllHaveLines qs) :
    Succeeds (ofInequalities qs) := by
  refine Succeeds.foldlM [] fun found (q, r, others) hp => extend_succeeds ?_ found
  exact h.of_subset fun x hx => (List.mem_filter.1 (others_subset hp hx)).1

/-- Nothing is added for a pair whose lines do not cross, whose crossing is refused, or whose
crossing is near a corner found before; or else the crossing is. -/
theorem extend_cases {found corners : List (Corner α)}
    {pair : Inequality α × Inequality α × List (Inequality α)}
    (h : extend found pair = .ok corners) :
    (corners = found ∧ ∀ p, pair.1.form.crossing pair.2.1.form = some p →
      allAccept p pair.2.2 = .ok true → ∃ c ∈ found, p.near c.point = true) ∨
    ∃ p, pair.1.form.crossing pair.2.1.form = some p ∧ allAccept p pair.2.2 = .ok true ∧
      (∀ c ∈ found, p.near c.point = false) ∧
      corners = found ++ [⟨p, (pair.1.label, pair.2.1.label)⟩] := by
  obtain ⟨q, r, others⟩ := pair
  simp only [extend] at h
  split at h
  · next none =>
    cases h
    refine .inl ⟨rfl, fun p crossing => ?_⟩
    rw [none] at crossing
    cases crossing
  · next p crossing =>
    obtain ⟨verdict, asked, h⟩ := bind_ok_iff.1 h
    cases verdict with
    | false =>
      cases h
      refine .inl ⟨rfl, fun p' crossing' accepted => ?_⟩
      obtain rfl : p = p' := Option.some.inj (crossing.symm.trans crossing')
      rw [asked] at accepted
      cases accepted
    | true =>
      simp only [if_true] at h
      split at h
      · next near =>
        cases h
        refine .inl ⟨rfl, fun p' crossing' _ => ?_⟩
        obtain rfl : p = p' := Option.some.inj (crossing.symm.trans crossing')
        exact List.any_eq_true.1 near
      · next new =>
        cases h
        refine .inr ⟨p, crossing, asked, fun c hc => ?_, rfl⟩
        exact Bool.eq_false_iff.2 fun near => new (List.any_eq_true.2 ⟨c, hc, near⟩)

/-! ## Corners apart -/

/-- No corner is near one found before it. -/
def Apart (corners : List (Corner α)) : Prop :=
  corners.Pairwise fun c d => d.point.near c.point = false

theorem extend_apart {found corners : List (Corner α)}
    {pair : Inequality α × Inequality α × List (Inequality α)} (apart : Apart found)
    (h : extend found pair = .ok corners) : Apart corners := by
  rcases extend_cases h with ⟨rfl, -⟩ | ⟨p, -, -, far, rfl⟩
  · exact apart
  · refine List.pairwise_append.2 ⟨apart, List.pairwise_singleton _ _, fun c hc d hd => ?_⟩
    rw [List.mem_singleton.1 hd]
    exact far c hc

theorem foldlM_extend_apart :
    ∀ {pairs : List (Inequality α × Inequality α × List (Inequality α))}
      {found corners : List (Corner α)}, Apart found → pairs.foldlM extend found = .ok corners →
      Apart corners
  | [], found, corners, apart, h => by cases h; exact apart
  | pair :: pairs, found, corners, apart, h => by
    rw [List.foldlM_cons] at h
    obtain ⟨found', first, rest⟩ := bind_ok_iff.1 h
    exact foldlM_extend_apart (extend_apart apart first) rest

theorem ofInequalities_apart {qs : List (Inequality α)} {corners : List (Corner α)}
    (h : ofInequalities qs = .ok corners) : Apart corners :=
  foldlM_extend_apart .nil h

end Corner
end HalfPlane
