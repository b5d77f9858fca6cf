/-
Every corner that is found, and that none is missed.

The pairs of solved inequalities are taken in the order of their places (`Places.Before`). A
pair `Forms` a corner when the two lines cross there and no other solved inequality refuses it.
What is found is accounted for (`Account`): each corner by the pair that forms it, in the order
of the pairs, and each pair that forms one by its own corner or a near one found before. The
invariant of the run over the pairs is the account of those done so far (`Progress`).

There is one way to be left without an answer. An inequality whose unknowns are too small to
count has no line, so it cannot say on which side of its line a point lies. If it is asked, all
is lost, also the corners that it would have been asked nothing more about
(`not_always_accounted`).
-/
import HalfPlane.Proofs.Double.Laws
import HalfPlane.Proofs.Geometry.Corners
import HalfPlane.Proofs.Geometry.Crossing

namespace HalfPlane
open Scalar

/-! ## Places of pairs -/

/-- The places of two elements of a list. -/
structure Places where
  first : Nat
  second : Nat

namespace Places
variable {β : Type}

/-- The order of the first places, and then of the second ones. -/
def Before (k l : Places) : Prop := k.first < l.first ∨ k.first = l.first ∧ k.second < l.second

/-- Two elements stand at these places, the earlier one first. -/
structure Pick (k : Places) (l : List β) (b c : β) : Prop where
  order : k.first < k.second
  first : l[k.first]? = some b
  second : l[k.second]? = some c

/-- The elements at other places. -/
def others (k : Places) (l : List β) : List β := (l.eraseIdx k.second).eraseIdx k.first

/-- The places of the elements that two splits single out. -/
def ofSplits (before between : List β) : Places :=
  ⟨before.length, before.length + 1 + between.length⟩

theorem Pick.unique {k : Places} {l : List β} {b c b' c' : β} (h : k.Pick l b c)
    (h' : k.Pick l b' c') : b = b' ∧ c = c' :=
  ⟨Option.some.inj (h.first.symm.trans h'.first), Option.some.inj (h.second.symm.trans h'.second)⟩

theorem pick_ofSplits (before between rest : List β) (b c : β) :
    (ofSplits before between).Pick (before ++ b :: (between ++ c :: rest)) b c := by
  refine ⟨?_, ?_, ?_⟩
  · simp only [ofSplits]
    omega
  · simp [ofSplits]
  · simp only [ofSplits]
    rw [List.getElem?_append_right (by omega),
      show before.length + 1 + between.length - before.length = between.length + 1 by omega]
    simp

theorem others_ofSplits (before between rest : List β) (b c : β) :
    (ofSplits before between).others (before ++ b :: (between ++ c :: rest)) =
      before ++ between ++ rest := by
  simp only [others, ofSplits]
  rw [List.eraseIdx_append_of_length_le (by omega),
    show before.length + 1 + between.length - before.length = between.length + 1 by omega,
    List.eraseIdx_cons_succ, List.eraseIdx_append_of_length_le (by omega), Nat.sub_self,
    List.eraseIdx_cons_zero, List.eraseIdx_append_of_length_le (by omega), Nat.sub_self,
    List.eraseIdx_cons_zero, List.append_assoc]

end Places

section Lists
variable {β : Type}

theorem exists_append_of_getElem? {l : List β} {i : Nat} {b : β} (h : l[i]? = some b) :
    ∃ before after, l = before ++ b :: after ∧ before.length = i := by
  obtain ⟨hi, rfl⟩ := List.getElem?_eq_some_iff.1 h
  refine ⟨l.take i, l.drop (i + 1), ?_, ?_⟩
  · rw [← List.drop_eq_getElem_cons hi, List.take_append_drop]
  · rw [List.length_take]
    omega

theorem mem_splits_append :
    ∀ (before after : List β) (b : β), (before, b, after) ∈ splits (before ++ b :: after)
  | [], _, _ => List.mem_cons_self ..
  | c :: before, after, b => by
    have rest := mem_splits_append before after b
    rw [List.cons_append, splits]
    exact List.mem_cons_of_mem _ (List.mem_map_of_mem rest)

/-- The splits of a list come in the order of the elements they single out. -/
theorem splits_pairwise :
    ∀ l : List β, (splits l).Pairwise fun s t => s.1.length < t.1.length
  | [] => .nil
  | b :: l => by
    rw [splits, List.pairwise_cons, List.pairwise_map]
    refine ⟨fun t ht => ?_, (splits_pairwise l).imp fun h => Nat.succ_lt_succ h⟩
    obtain ⟨s, -, rfl⟩ := List.mem_map.1 ht
    exact Nat.zero_lt_succ _

/-- The pairs of a list with their places. -/
def placedPairs (l : List β) : List (Places × β × β × List β) :=
  (splits l).flatMap fun (before, b, after) =>
    (splits after).map fun (between, c, rest) =>
      (Places.ofSplits before between, b, c, before ++ between ++ rest)

theorem map_placedPairs (l : List β) : (placedPairs l).map (·.2) = pairsWithOthers l := by
  simp only [placedPairs, pairsWithOthers, List.map_flatMap, List.map_map]
  rfl

theorem pick_of_mem {l others : List β} {k : Places} {b c : β}
    (h : (k, b, c, others) ∈ placedPairs l) : k.Pick l b c ∧ others = k.others l := by
  simp only [placedPairs, List.mem_flatMap, List.mem_map, Prod.mk.injEq] at h
  obtain ⟨⟨before, b', after⟩, hb, ⟨between, c', rest⟩, hc, rfl, rfl, rfl, rfl⟩ := h
  obtain rfl : after = between ++ c' :: rest := of_mem_splits hc
  obtain rfl : l = before ++ b' :: (between ++ c' :: rest) := of_mem_splits hb
  exact ⟨Places.pick_ofSplits .., (Places.others_ofSplits ..).symm⟩

theorem mem_of_pick {l : List β} {k : Places} {b c : β} (h : k.Pick l b c) :
    (k, b, c, k.others l) ∈ placedPairs l := by
  obtain ⟨order, first, second⟩ := h
  obtain ⟨before, after, rfl, hb⟩ := exists_append_of_getElem? first
  rw [List.getElem?_append_right (by omega), show k.second - before.length =
    (k.second - before.length - 1) + 1 by omega, List.getElem?_cons_succ] at second
  obtain ⟨between, rest, rfl, hc⟩ := exists_append_of_getElem? second
  obtain rfl : k = Places.ofSplits before between := by
    cases k
    simp only [Places.ofSplits, Places.mk.injEq] at hb hc order ⊢
    omega
  rw [Places.others_ofSplits]
  refine List.mem_flatMap.2 ⟨_, mem_splits_append before _ b, List.mem_map.2 ?_⟩
  exact ⟨_, mem_splits_append between rest c, rfl⟩

theorem placedPairs_pairwise (l : List β) :
    (placedPairs l).Pairwise fun x y => x.1.Before y.1 := by
  refine List.pairwise_flatMap.2 ⟨fun s _ => ?_, (splits_pairwise l).imp fun h x hx y hy => ?_⟩
  · rw [List.pairwise_map]
    refine (splits_pairwise _).imp fun h => .inr ⟨rfl, ?_⟩
    simp only [Places.ofSplits]
    omega
  · obtain ⟨_, -, rfl⟩ := List.mem_map.1 hx
    obtain ⟨_, -, rfl⟩ := List.mem_map.1 hy
    exact .inl h

end Lists

/-! ## Accounts -/

/-- The inequalities of a list of which something has been claimed. -/
def solvedOf {α : Type} (qs : List (Inequality α)) : List (Inequality α) :=
  qs.filter (·.solution.isSolved)

/-! ## Who can tell -/

section Telling
variable {α : Type} [Scalar α]

/-- On which side of a line a point lies takes a line. It is not asked for a point on the line, of
an equation, or without a claimed side. -/
def LinearForm.Tells (f : LinearForm α) (solution : Solution) (p : Point α) : Prop :=
  f.HasLine ∨ negligible (f.evaluate p) = true ∨ f.operator = .eq ∨ solution.side? = none

theorem LinearForm.accepts_succeeds_iff [Hypot α] {f : LinearForm α} {solution : Solution}
    {p : Point α} : Succeeds (f.accepts solution p) ↔ f.Tells solution p := by
  constructor
  · intro h
    unfold accepts at h
    split at h
    · exact .inr (.inr (.inr rfl))
    · dsimp only at h
      split at h
      · next here => exact .inr (.inl here)
      · split at h
        · exact .inr (.inr (.inr rfl))
        · next equation => exact .inr (.inr (.inl equation))
        · obtain ⟨_, h⟩ := h
          obtain ⟨_, normal, -⟩ := bind_ok_iff.1 h
          obtain ⟨ends, boundary, -⟩ := bind_ok_iff.1 normal
          exact .inl (.of_boundary ⟨ends, boundary⟩)
  · rintro (line | here | equation | unclaimed)
    · exact line.accepts solution p
    · unfold accepts
      cases solution with
      | unsolved => exact .ok _
      | solved side => simp only [here]; exact .ok _
    · unfold accepts
      rw [equation]
      cases solution with
      | unsolved => exact .ok _
      | solved side => cases side <;> dsimp only <;> split <;> exact .ok _
    · unfold accepts
      cases solution with
      | unsolved => exact .ok _
      | solved side =>
        obtain rfl : side = none := unclaimed
        dsimp only
        split <;> exact .ok _

end Telling

namespace Corner
section Any
variable {α : Type} [Scalar α] [Hypot α]

/-- The lines of two inequalities cross at a corner, and every other one accepts it. -/
def Forms (qs : List (Inequality α)) (k : Places) (corner : Corner α) : Prop :=
  ∃ q r, k.Pick qs q r ∧ q.form.crossing r.form = some corner.point ∧
    corner.lines = (q.label, r.label) ∧ ∀ e ∈ k.others qs, e.accepts corner.point = .ok true

theorem forms_iff {qs : List (Inequality α)} {k : Places} {q r : Inequality α}
    (pick : k.Pick qs q r) {corner : Corner α} :
    Forms qs k corner ↔ q.form.crossing r.form = some corner.point ∧
      corner.lines = (q.label, r.label) ∧
      ∀ e ∈ k.others qs, e.accepts corner.point = .ok true := by
  constructor
  · rintro ⟨q', r', pick', facts⟩
    obtain ⟨rfl, rfl⟩ := pick.unique pick'
    exact facts
  · intro facts
    exact ⟨q, r, pick, facts⟩

/-- A pair forms one corner at most. -/
theorem Forms.unique {qs : List (Inequality α)} {k : Places} {c d : Corner α} (hc : Forms qs k c)
    (hd : Forms qs k d) : c = d := by
  obtain ⟨q, r, pick, crossing, lines, -⟩ := hc
  obtain ⟨crossing', lines', -⟩ := (forms_iff pick).1 hd
  have point : c.point = d.point := Option.some.inj (crossing.symm.trans crossing')
  cases c
  cases d
  cases point
  cases lines.trans lines'.symm
  rfl

/-- Corners with the places of the pairs that form them: the corners are apart, and every pair that
forms a corner has its own or comes behind a pair with a near one. -/
structure Account (qs : List (Inequality α)) (found : List (Places × Corner α)) : Prop where
  formed : ∀ x ∈ found, Forms qs x.1 x.2
  complete : ∀ k corner, Forms qs k corner →
    (k, corner) ∈ found ∨ ∃ x ∈ found, x.1.Before k ∧ corner.point.near x.2.point = true
  apart : found.Pairwise fun x y =>
    x.2.point.near y.2.point = false ∧ y.2.point.near x.2.point = false
  ordered : found.Pairwise fun x y => x.1.Before y.1

/-- Whoever is asked about a point can tell: an inequality is asked when all those in front of it
accepted. -/
def Answers (p : Point α) (es : List (Inequality α)) : Prop :=
  ∀ front e back, es = front ++ e :: back → (∀ r ∈ front, r.accepts p = .ok true) →
    e.form.Tells e.solution p

theorem allAccept_iff (p : Point α) :
    ∀ es : List (Inequality α), allAccept p es = .ok true ↔ ∀ e ∈ es, e.accepts p = .ok true
  | [] => by simp [allAccept]
  | e :: es => by
    rw [allAccept, bind_ok_iff, List.forall_mem_cons]
    constructor
    · rintro ⟨accepted, he, h⟩
      cases accepted with
      | true => exact ⟨he, (allAccept_iff p es).1 h⟩
      | false => cases h
    · rintro ⟨he, h⟩
      exact ⟨true, he, (allAccept_iff p es).2 h⟩

theorem allAccept_succeeds_iff (p : Point α) :
    ∀ es : List (Inequality α), Succeeds (allAccept p es) ↔ Answers p es
  | [] => iff_of_true (.ok _) fun front e back h => by simp at h
  | e :: es => by
    have ih := allAccept_succeeds_iff p es
    constructor
    · rintro ⟨all, h⟩ front r back split accepted
      obtain ⟨verdict, he, h⟩ := bind_ok_iff.1 h
      cases front with
      | nil =>
        obtain ⟨rfl, -⟩ := List.cons.inj split
        exact LinearForm.accepts_succeeds_iff.1 ⟨verdict, he⟩
      | cons e' front =>
        obtain ⟨rfl, rfl⟩ := List.cons.inj split
        have yes := accepted e (List.mem_cons_self ..)
        rw [he] at yes
        cases yes
        exact ih.1 ⟨all, h⟩ front r back rfl fun r hr => accepted r (List.mem_cons_of_mem _ hr)
    · intro h
      have tells : e.form.Tells e.solution p := h [] e es rfl (by simp)
      obtain ⟨verdict, he⟩ : Succeeds (e.accepts p) := LinearForm.accepts_succeeds_iff.2 tells
      rw [allAccept, he]
      cases verdict with
      | false => exact .ok _
      | true =>
        refine ih.2 fun front r back split accepted => ?_
        refine h (e :: front) r back (by rw [split, List.cons_append]) fun r' hr => ?_
        rcases List.mem_cons.1 hr with rfl | hr
        · exact he
        · exact accepted r' hr

/-! ## The run over the pairs -/

variable {qs : List (Inequality α)}

/-- The account of the pairs that are done. -/
structure Progress (qs : List (Inequality α))
    (done : List (Places × Inequality α × Inequality α × List (Inequality α)))
    (found : List (Places × Corner α)) : Prop where
  formed : ∀ x ∈ found, Forms qs x.1 x.2
  complete : ∀ y ∈ done, ∀ corner, Forms qs y.1 corner →
    (y.1, corner) ∈ found ∨ ∃ x ∈ found, x.1.Before y.1 ∧ corner.point.near x.2.point = true
  places : (found.map (·.1)).Sublist (done.map (·.1))

section Step
variable {done todo : List (Places × Inequality α × Inequality α × List (Inequality α))}
  {found : List (Places × Corner α)} {k : Places} {q r : Inequality α}
  {others : List (Inequality α)}

/-- A pair whose corner is accounted for is done. -/
theorem Progress.skip (h : Progress qs done found)
    (seen : ∀ corner, Forms qs k corner →
      ∃ x ∈ found, x.1.Before k ∧ corner.point.near x.2.point = true) :
    Progress qs (done ++ [(k, q, r, others)]) found where
  formed := h.formed
  complete y hy corner forms := by
    rcases List.mem_append.1 hy with hy | hy
    · exact h.complete y hy corner forms
    · obtain rfl := List.mem_singleton.1 hy
      exact .inr (seen corner forms)
  places := by
    rw [List.map_append]
    exact h.places.trans (List.sublist_append_left _ _)

/-- A pair is done with its own corner. -/
theorem Progress.add (h : Progress qs done found) {corner : Corner α}
    (forms : Forms qs k corner) :
    Progress qs (done ++ [(k, q, r, others)]) (found ++ [(k, corner)]) where
  formed x hx := by
    rcases List.mem_append.1 hx with hx | hx
    · exact h.formed x hx
    · obtain rfl := List.mem_singleton.1 hx
      exact forms
  complete y hy corner' forms' := by
    rcases List.mem_append.1 hy with hy | hy
    · rcases h.complete y hy corner' forms' with own | ⟨x, hx, near⟩
      · exact .inl (List.mem_append_left _ own)
      · exact .inr ⟨x, List.mem_append_left _ hx, near⟩
    · obtain rfl := List.mem_singleton.1 hy
      rw [forms'.unique forms]
      exact .inl (List.mem_append_right _ (List.mem_singleton.2 rfl))
  places := by
    rw [List.map_append, List.map_append]
    exact h.places.append (List.Sublist.refl _)

/-- Every corner found so far comes from a pair in front of the next one. -/
theorem Progress.before (h : Progress qs done found)
    (all : placedPairs qs = done ++ (k, q, r, others) :: todo) {x : Places × Corner α}
    (hx : x ∈ found) : x.1.Before k := by
  have ordered := placedPairs_pairwise qs
  rw [all] at ordered
  obtain ⟨y, hy, same⟩ := List.mem_map.1 (h.places.subset (List.mem_map_of_mem hx))
  have before := (List.pairwise_append.1 ordered).2.2 y hy _ (List.mem_cons_self ..)
  rwa [same] at before

/-- The next pair is accounted for in one step. -/
theorem Progress.step (h : Progress qs done found)
    (all : placedPairs qs = done ++ (k, q, r, others) :: todo) {corners : List (Corner α)}
    (next : extend (found.map (·.2)) (q, r, others) = .ok corners) :
    ∃ found', found'.map (·.2) = corners ∧
      Progress qs (done ++ [(k, q, r, others)]) found' := by
  have member : (k, q, r, others) ∈ placedPairs qs := by
    rw [all]
    exact List.mem_append_right _ (List.mem_cons_self ..)
  obtain ⟨pick, rfl⟩ := pick_of_mem member
  rcases extend_cases next with ⟨rfl, seen⟩ | ⟨p, crossing, accepted, -, rfl⟩
  · refine ⟨found, rfl, h.skip fun corner forms => ?_⟩
    obtain ⟨crossing, -, accepted⟩ := (forms_iff pick).1 forms
    obtain ⟨c, hc, near⟩ := seen _ crossing ((allAccept_iff _ _).2 accepted)
    obtain ⟨x, hx, rfl⟩ := List.mem_map.1 hc
    exact ⟨x, hx, h.before all hx, near⟩
  · have forms : Forms qs k ⟨p, (q.label, r.label)⟩ :=
      (forms_iff pick).2 ⟨crossing, rfl, (allAccept_iff p _).1 accepted⟩
    exact ⟨found ++ [(k, _)], List.map_append, h.add forms⟩

end Step

/-- And all pairs in a run. -/
theorem Progress.run :
    ∀ {todo done : List (Places × Inequality α × Inequality α × List (Inequality α))}
      {found : List (Places × Corner α)} {corners : List (Corner α)},
      placedPairs qs = done ++ todo → Progress qs done found →
      (todo.map (·.2)).foldlM extend (found.map (·.2)) = .ok corners →
      ∃ found', found'.map (·.2) = corners ∧ Progress qs (placedPairs qs) found'
  | [], done, found, corners, all, h, run => by
    cases run
    rw [all, List.append_nil]
    exact ⟨found, rfl, h⟩
  | (k, q, r, others) :: todo, done, found, corners, all, h, run => by
    rw [List.map_cons, List.foldlM_cons] at run
    obtain ⟨next, first, rest⟩ := bind_ok_iff.1 run
    obtain ⟨found', rfl, h'⟩ := h.step all first
    exact h'.run (by rw [all, List.append_assoc]; rfl) rest

theorem exists_progress {corners : List (Corner α)} (h : ofInequalities qs = .ok corners) :
    ∃ found, found.map (·.2) = corners ∧
      Progress (solvedOf qs) (placedPairs (solvedOf qs)) found := by
  have start : Progress (solvedOf qs) [] [] :=
    ⟨fun x hx => (List.not_mem_nil hx).elim, fun y hy => (List.not_mem_nil hy).elim, .slnil⟩
  have all : placedPairs (solvedOf qs) = [] ++ placedPairs (solvedOf qs) := rfl
  refine start.run all ?_
  rw [map_placedPairs]
  exact h

/-! ## When there is an answer -/

theorem extend_succeeds_iff (found : List (Corner α))
    (pair : Inequality α × Inequality α × List (Inequality α)) :
    Succeeds (extend found pair) ↔
      ∀ p, pair.1.form.crossing pair.2.1.form = some p → Answers p pair.2.2 := by
  obtain ⟨q, r, others⟩ := pair
  cases crossing : q.form.crossing r.form with
  | none =>
    simp only [extend, crossing]
    exact iff_of_true (.ok _) fun p h => by cases h
  | some p =>
    have asked : Succeeds (extend found (q, r, others)) ↔ Succeeds (allAccept p others) := by
      simp only [extend, crossing]
      constructor
      · rintro ⟨corners, h⟩
        obtain ⟨verdict, h, -⟩ := bind_ok_iff.1 h
        exact ⟨verdict, h⟩
      · intro h
        refine h.bind fun verdict => ?_
        cases verdict with
        | false => exact .pure _
        | true => simp only [if_true]; split <;> exact .pure _
    rw [asked, allAccept_succeeds_iff]
    constructor
    · rintro h p' ⟨⟩
      exact h
    · intro h
      exact h p rfl

/-- Whatever pair of lines crosses, those who are asked about the crossing can tell. -/
def Answerable (qs : List (Inequality α)) : Prop :=
  ∀ (k : Places) (q r : Inequality α) (p : Point α), k.Pick qs q r →
    q.form.crossing r.form = some p → Answers p (k.others qs)

theorem ofInequalities_succeeds_iff :
    Succeeds (ofInequalities qs) ↔ Answerable (solvedOf qs) := by
  show Succeeds ((pairsWithOthers (solvedOf qs)).foldlM extend []) ↔ _
  rw [Succeeds.foldlM_iff extend_succeeds_iff, ← map_placedPairs, List.forall_mem_map]
  constructor
  · intro h k q r p pick crossing
    exact h _ (mem_of_pick pick) p crossing
  · rintro h ⟨k, q, r, others⟩ hx p crossing
    obtain ⟨pick, rfl⟩ := pick_of_mem hx
    exact h k q r p pick crossing

/-- Inequalities with lines always answer. -/
theorem answerable_of_lines {es : List (Inequality α)} (lines : AllHaveLines es) :
    Answerable es := by
  intro k q r p _ _ front e back split _
  have others : k.others es ⊆ es :=
    ((List.eraseIdx_sublist ..).trans (List.eraseIdx_sublist ..)).subset
  exact .inl (lines.of_subset others e (by simp [split]))

/-- The corners that are found are accounted for. -/
def Accounted (qs : List (Inequality α)) : Prop :=
  ∃ found, ofInequalities qs = .ok (found.map (·.2)) ∧ Account (solvedOf qs) found

theorem accounted_iff (near_comm : ∀ p q : Point α, p.near q = q.near p) :
    Accounted qs ↔ Answerable (solvedOf qs) := by
  rw [← ofInequalities_succeeds_iff]
  constructor
  · rintro ⟨found, h, -⟩
    exact ⟨_, h⟩
  rintro ⟨corners, h⟩
  obtain ⟨found, rfl, progress⟩ := exists_progress h
  refine ⟨found, h, progress.formed, fun k corner forms => ?_, ?_, ?_⟩
  · obtain ⟨q, r, pick, -⟩ := id forms
    exact progress.complete _ (mem_of_pick pick) corner forms
  · refine (List.pairwise_map.1 (ofInequalities_apart h)).imp fun {x y} far => ⟨?_, far⟩
    rw [near_comm]
    exact far
  · have ordered := placedPairs_pairwise (solvedOf qs)
    exact List.pairwise_map.1 ((List.pairwise_map.2 ordered).sublist progress.places)

end Any

end Corner

/-! ## Exact corners -/

section Exact
variable {K : Type} [Field K] [LinearOrder K] [IsStrictOrderedRing K]

theorem Point.near_comm_of_field (p q : Point K) : p.near q = q.near p := by
  have comm : ∀ x y : K, negligible (x - y) = negligible (y - x) := fun x y => by
    rw [Bool.eq_iff_iff, negligible_iff, negligible_iff, abs_sub_comm]
  rw [near, near, comm p.x, comm p.y]

theorem Point.near_self_of_field (p : Point K) : p.near p = true := by
  simp [near, tolerance_pos]

/-- In exact arithmetic the crossing of two lines is on both. -/
theorem LinearForm.evaluate_crossing {f g : LinearForm K} {p : Point K}
    (h : f.crossing g = some p) : f.evaluate p = 0 ∧ g.evaluate p = 0 :=
  (meetAt_of_crossing h p).2 rfl

theorem Corner.Forms.evaluate [Hypot K] {qs : List (Inequality K)} {k : Places} {corner : Corner K}
    {q r : Inequality K} (h : Forms qs k corner) (pick : k.Pick qs q r) :
    q.form.evaluate corner.point = 0 ∧ r.form.evaluate corner.point = 0 := by
  exact LinearForm.evaluate_crossing ((forms_iff pick).1 h).1

end Exact

namespace Corner

/-- The corners of a list are found and accounted for exactly when those who are asked about a
crossing can tell, as they always can if all have lines. In exact arithmetic each corner is on the
lines that form it. -/
theorem accounted_iff_answerable {α : Type} [Coordinate α] [LawfulCoordinate α]
    (qs : List (Inequality α)) :
    (Accounted qs ↔ Answerable (solvedOf qs)) ∧
    (AllHaveLines (solvedOf qs) → Accounted qs) ∧
    ∀ {K : Type} [Field K] [LinearOrder K] [IsStrictOrderedRing K] [Hypot K]
      (rs : List (Inequality K)),
      (Accounted rs ↔ Answerable (solvedOf rs)) ∧
      ∀ k corner q r, Forms (solvedOf rs) k corner → k.Pick (solvedOf rs) q r →
        q.form.evaluate corner.point = 0 ∧ r.form.evaluate corner.point = 0 := by
  have rounded : Accounted qs ↔ Answerable (solvedOf qs) := accounted_iff Point.near_comm
  refine ⟨rounded, fun lines => rounded.2 (answerable_of_lines lines), ?_⟩
  intro K _ _ _ _ rs
  exact ⟨accounted_iff Point.near_comm_of_field, fun k corner q r forms => forms.evaluate⟩

/-! ## A form without a line -/

deriving instance DecidableEq for Point, Corner

/-- Two claims whose lines meet in a corner that all accept, a third line that crosses the first one
elsewhere, and last a claim whose unknowns are too small to count. -/
def hairline : List (Inequality Float) :=
  [⟨⟨1.0, 0.0, 0.0, .ge⟩, "d1", "", "", "", .solved (some .regionA)⟩,
    ⟨⟨0.0, 1.0, 0.0, .ge⟩, "d2", "", "", "", .solved (some .regionB)⟩,
    ⟨⟨1.0, -1.0, 10.0, .ge⟩, "d3", "", "", "", .solved (some .regionA)⟩,
    ⟨⟨0.0, 5e-10, 0.0, .le⟩, "d4", "", "", "", .solved (some .regionA)⟩]

theorem hairline_refused : ofInequalities hairline = .error .divisionByZero := by decide +kernel

/-- So a corner can be formed and none be found. -/
theorem not_always_accounted :
    Forms (solvedOf hairline) ⟨0, 1⟩ ⟨⟨0.0, 0.0⟩, ("d1", "d2")⟩ ∧ ¬ Accounted hairline := by
  constructor
  · have crossing : (hairline[0]).form.crossing (hairline[1]).form = some ⟨0.0, 0.0⟩ := by
      decide +kernel
    have accepted : ∀ e ∈ [hairline[2], hairline[3]], e.accepts ⟨0.0, 0.0⟩ = .ok true := by
      decide +kernel
    exact ⟨hairline[0], hairline[1], ⟨Nat.zero_lt_one, rfl, rfl⟩, crossing, rfl, accepted⟩
  · rintro ⟨found, answer, -⟩
    rw [hairline_refused] at answer
    cases answer

theorem accounted_of_hairline :
    Accounted (hairline.take 3) ∧ ¬ Answerable (solvedOf hairline) := by
  constructor
  · have lines : AllHaveLines (solvedOf (hairline.take 3)) := by
      unfold AllHaveLines
      decide +kernel
    exact (accounted_iff_answerable (hairline.take 3)).2.1 lines
  · intro answerable
    obtain ⟨found, answer, -⟩ := (accounted_iff_answerable hairline).1.2 answerable
    rw [hairline_refused] at answer
    cases answer

end Corner
end HalfPlane
