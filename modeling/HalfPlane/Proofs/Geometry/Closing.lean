/-
The corners of a region once its boundary lines belong to it.

Closing an inequality lets its line in, and off the line it says what it said. So a strict
inequality bars the points on its line that its closure lets through (`accepts_closed_iff`), and a
pair forms a corner if it forms one after the closing and none of the others bars it
(`forms_closed_iff`). A pair is not asked about its own crossing, so two strict lines form a corner
as well as two others. A third strict line through it takes it away (`not_always_closed_alike`).

Corners are found one after the other, and near ones only once. What a run finds is determined by
the pairs that form corners, since one of them is left out for the sake of an earlier one only
(`Account.eq_of_formed`). So both runs find the same corners exactly if none of those found after
the closing was barred (`closing_adds_barred`).
-/
import HalfPlane.Proofs.Geometry.Account

namespace HalfPlane
open Scalar

/-! ## Closed inequalities -/

/-- The operator that says the same off the line and lets the line in. -/
def Operator.closed : Operator → Operator
  | .lt | .le => .le
  | .gt | .ge => .ge
  | .eq => .eq

@[simp] theorem Operator.strict_closed (o : Operator) : o.closed.strict = false := by
  cases o <;> rfl

section Any
variable {α : Type}

def LinearForm.closed (f : LinearForm α) : LinearForm α := { f with operator := f.operator.closed }

def Inequality.closed (q : Inequality α) : Inequality α := { q with form := q.form.closed }

theorem solvedOf_closed (qs : List (Inequality α)) :
    solvedOf (qs.map Inequality.closed) = (solvedOf qs).map Inequality.closed :=
  List.filter_map

variable [Scalar α]

/-- The point is on the line of the inequality, and the line does not belong to its solutions. -/
def Inequality.Bars (q : Inequality α) (p : Point α) : Prop :=
  q.form.operator.strict = true ∧ negligible (q.form.evaluate p) = true

variable [Hypot α]

/-- On its line a closed claim accepts, and elsewhere it does what it did. -/
theorem LinearForm.accepts_closed (f : LinearForm α) (side : Option Side) (p : Point α) :
    f.closed.accepts (.solved side) p =
      if negligible (f.evaluate p) then .ok true else f.accepts (.solved side) p := by
  have value : f.closed.evaluate p = f.evaluate p := rfl
  unfold accepts
  dsimp only
  rw [value]
  split
  · simp only [closed, Operator.strict_closed, Bool.not_false]
  · obtain ⟨a, b, c, o⟩ := f
    cases side <;> cases o <;> rfl

/-- A claim accepts what it accepts once it is closed, unless it bars it. -/
theorem Inequality.accepts_closed_iff {q : Inequality α} (solved : q.solution.isSolved = true)
    (p : Point α) :
    q.accepts p = .ok true ↔ q.closed.accepts p = .ok true ∧ ¬ q.Bars p := by
  obtain ⟨side, claimed⟩ : ∃ side, q.solution = .solved side := by
    cases h : q.solution with
    | unsolved => rw [h] at solved; cases solved
    | solved side => exact ⟨side, rfl⟩
  have closed : q.closed.accepts p = q.form.closed.accepts (.solved side) p := by
    rw [← claimed]
    rfl
  rw [closed, LinearForm.accepts_closed, accepts, claimed]
  by_cases on : negligible (q.form.evaluate p) = true
  · have here : q.form.accepts (.solved side) p = .ok (!q.form.operator.strict) := by
      simp only [LinearForm.accepts, on, if_true]
    simp [here, on, Bars]
  · simp [on, Bars]

/-- The side that was claimed is the one the form asks for, or none if it asks for none. -/
def Inequality.SolvedRight (q : Inequality α) : Prop :=
  ∃ side, q.form.correctSide = .ok side ∧ q.solution = .solved side

theorem Inequality.SolvedRight.isSolved {q : Inequality α} (h : q.SolvedRight) :
    q.solution.isSolved = true := by
  obtain ⟨side, -, solved⟩ := h
  rw [solved]
  rfl

/-- A form that asks for a side has a line. -/
theorem Inequality.SolvedRight.hasLine {q : Inequality α} (h : q.SolvedRight) :
    q.form.HasLine := by
  obtain ⟨side, right, -⟩ := h
  obtain ⟨_, satisfies, -⟩ := bind_ok_iff.1 right
  obtain ⟨_, mark, -⟩ := bind_ok_iff.1 satisfies
  obtain ⟨_, normal, -⟩ := bind_ok_iff.1 mark
  obtain ⟨ends, boundary, -⟩ := bind_ok_iff.1 normal
  exact .of_boundary ⟨ends, boundary⟩

theorem solvedOf_eq_self {qs : List (Inequality α)} (right : ∀ q ∈ qs, q.SolvedRight) :
    solvedOf qs = qs :=
  List.filter_eq_self.2 fun q hq => (right q hq).isSolved

end Any

/-! ## Pairs of closed inequalities -/

namespace Places
variable {β γ : Type} {k : Places} {l : List β}

theorem pick_map_iff {g : β → γ} {b' c' : γ} :
    k.Pick (l.map g) b' c' ↔ ∃ b c, k.Pick l b c ∧ g b = b' ∧ g c = c' := by
  constructor
  · rintro ⟨order, first, second⟩
    rw [List.getElem?_map, Option.map_eq_some_iff] at first second
    obtain ⟨b, first, hb⟩ := first
    obtain ⟨c, second, hc⟩ := second
    exact ⟨b, c, ⟨order, first, second⟩, hb, hc⟩
  · rintro ⟨b, c, ⟨order, first, second⟩, rfl, rfl⟩
    refine ⟨order, ?_, ?_⟩
    · rw [List.getElem?_map, first, Option.map_some]
    · rw [List.getElem?_map, second, Option.map_some]

theorem others_map (g : β → γ) : k.others (l.map g) = (k.others l).map g := by
  simp only [others, List.eraseIdx_map]

theorem others_subset (k : Places) (l : List β) : k.others l ⊆ l :=
  ((List.eraseIdx_sublist ..).trans (List.eraseIdx_sublist ..)).subset

/-- Nobody is left besides a pair of two. -/
theorem Pick.others_pair {a b c d : β} (h : k.Pick [a, b] c d) : k.others [a, b] = [] := by
  have bound := (List.getElem?_eq_some_iff.1 h.second).1
  have order := h.order
  obtain ⟨i, j⟩ := k
  simp only [List.length_cons, List.length_nil] at bound order
  obtain rfl : j = 1 := by omega
  obtain rfl : i = 0 := by omega
  rfl

/-- Where elements differ, an element is at one place only. -/
theorem Pick.place_unique {k' : Places} {b c : β} (nodup : l.Nodup) (h : k.Pick l b c)
    (h' : k'.Pick l b c) : k = k' := by
  have first := (List.getElem?_inj (List.getElem?_eq_some_iff.1 h.first).1 nodup).1
    (h.first.trans h'.first.symm)
  have second := (List.getElem?_inj (List.getElem?_eq_some_iff.1 h.second).1 nodup).1
    (h.second.trans h'.second.symm)
  cases k
  cases k'
  cases first
  cases second
  rfl

theorem before_wf : WellFounded Before := by
  have lex : WellFounded (InvImage (Prod.Lex Nat.lt Nat.lt)
      fun k : Places => (k.first, k.second)) :=
    InvImage.wf _ (Prod.lex Nat.lt_wfRel Nat.lt_wfRel).wf
  refine Subrelation.wf (fun {k l} before => ?_) lex
  exact Prod.lex_def.2 before

theorem Before.asymm {k l : Places} (h : k.Before l) : ¬ l.Before k := by
  unfold Before at *
  omega

end Places

namespace Corner
section Any
variable {α : Type} [Scalar α] [Hypot α] {qs : List (Inequality α)}

/-- None of the others bars the point. -/
def Unbarred (qs : List (Inequality α)) (k : Places) (p : Point α) : Prop :=
  ∀ e ∈ k.others qs, ¬ e.Bars p

/-- A pair of claims forms a corner if it forms one after the closing and no other bars it. -/
theorem forms_closed_iff (solved : ∀ q ∈ qs, q.solution.isSolved = true) {k : Places}
    {corner : Corner α} :
    Forms qs k corner ↔ Forms (qs.map Inequality.closed) k corner ∧
      Unbarred qs k corner.point := by
  have accepted : (∀ e ∈ k.others qs, e.accepts corner.point = .ok true) ↔
      (∀ e ∈ k.others (qs.map Inequality.closed), e.accepts corner.point = .ok true) ∧
        Unbarred qs k corner.point := by
    rw [Places.others_map, List.forall_mem_map, Unbarred, ← forall₂_and]
    refine forall₂_congr fun e he => ?_
    exact Inequality.accepts_closed_iff (solved e (Places.others_subset k qs he)) _
  constructor
  · rintro ⟨q, r, pick, crossing, lines, all⟩
    obtain ⟨all, unbarred⟩ := accepted.1 all
    exact ⟨⟨_, _, Places.pick_map_iff.2 ⟨q, r, pick, rfl, rfl⟩, crossing, lines, all⟩, unbarred⟩
  · rintro ⟨⟨_, _, closed, crossing, lines, all⟩, unbarred⟩
    obtain ⟨q, r, pick, rfl, rfl⟩ := Places.pick_map_iff.1 closed
    exact ⟨q, r, pick, crossing, lines, accepted.2 ⟨all, unbarred⟩⟩

/-! ## Accounts that agree -/

variable {found found' : List (Places × Corner α)}

theorem Account.before_apart (h : Account qs found) {x y : Places × Corner α} (hx : x ∈ found)
    (hy : y ∈ found) (before : x.1.Before y.1) : y.2.point.near x.2.point = false := by
  have symm : Std.Symm fun x y : Places × Corner α =>
      x.2.point.near y.2.point = false ∧ y.2.point.near x.2.point = false := ⟨fun _ _ => And.symm⟩
  have different : x ≠ y := by
    rintro rfl
    exact before.asymm before
  exact (h.apart.forall hx hy different).2

theorem Account.nodup (h : Account qs found) : found.Nodup :=
  h.ordered.imp fun {x y} before same => by
    subst same
    exact before.asymm before

/-- If two lists of corners are accounted for and the pairs that form a corner found in the first
one form it in the second list as well, no corner found there in front of it is near. -/
theorem Account.mem_of_agree (h : Account qs found) {rs : List (Inequality α)}
    (h' : Account rs found') {x : Places × Corner α} (hx : x ∈ found)
    (forms : Forms rs x.1 x.2) (earlier : ∀ y ∈ found', y.1.Before x.1 → y ∈ found) :
    x ∈ found' := by
  rcases h'.complete _ _ forms with own | ⟨y, hy, before, near⟩
  · exact own
  · have apart := h.before_apart (earlier y hy before) hx before
    rw [near] at apart
    cases apart

/-- Two accounts agree if each finds only corners that the other list forms as well. The induction
is on the order of the pairs: a corner is left out for the sake of an earlier one only. -/
theorem Account.eq_of_formed (h : Account qs found) {rs : List (Inequality α)}
    (h' : Account rs found') (into : ∀ x ∈ found, Forms rs x.1 x.2)
    (back : ∀ x ∈ found', Forms qs x.1 x.2) : found = found' := by
  have members : ∀ k corner, (k, corner) ∈ found ↔ (k, corner) ∈ found' := by
    intro k
    induction k using Places.before_wf.induction with
    | _ k ih =>
      intro corner
      constructor
      · intro hx
        exact h.mem_of_agree h' hx (into _ hx) fun y hy before => (ih _ before _).2 hy
      · intro hx
        exact h'.mem_of_agree h hx (back _ hx) fun y hy before => (ih _ before _).1 hy
  refine List.Perm.eq_of_pairwise (fun x y _ _ before after => absurd after before.asymm)
    h.ordered h'.ordered ((List.perm_ext_iff_of_nodup h.nodup h'.nodup).2 ?_)
  exact fun x => members x.1 x.2

/-- With labels that differ, a corner tells the pair that forms it. -/
theorem Forms.place_unique {rs : List (Inequality α)}
    (labels : rs.map (·.label) = qs.map (·.label)) (nodup : (qs.map (·.label)).Nodup)
    {k k' : Places} {corner : Corner α} (h : Forms qs k corner) (h' : Forms rs k' corner) :
    k = k' := by
  obtain ⟨q, r, pick, -, lines, -⟩ := h
  obtain ⟨q', r', pick', -, lines', -⟩ := h'
  have labelled : k.Pick (qs.map (·.label)) q.label r.label :=
    Places.pick_map_iff.2 ⟨q, r, pick, rfl, rfl⟩
  have labelled' : k'.Pick (rs.map (·.label)) q'.label r'.label :=
    Places.pick_map_iff.2 ⟨q', r', pick', rfl, rfl⟩
  obtain ⟨first, second⟩ := Prod.mk.inj (lines.symm.trans lines')
  rw [labels, ← first, ← second] at labelled'
  exact labelled.place_unique nodup labelled'

/-- So lists with the same labels and the same corners have the same account. -/
theorem Account.eq_of_corners {rs : List (Inequality α)}
    (labels : rs.map (·.label) = qs.map (·.label)) (nodup : (qs.map (·.label)).Nodup)
    (h : Account qs found) (h' : Account rs found') (same : found.map (·.2) = found'.map (·.2)) :
    found = found' := by
  refine h.eq_of_formed h' (fun x hx => ?_) fun y hy => ?_
  · obtain ⟨y, hy, corner⟩ := List.mem_map.1 (same ▸ List.mem_map_of_mem hx)
    have forms := h'.formed y hy
    rw [corner] at forms
    rwa [(h.formed x hx).place_unique labels nodup forms]
  · obtain ⟨x, hx, corner⟩ := List.mem_map.1 (same ▸ List.mem_map_of_mem hy)
    have forms := h.formed x hx
    rw [corner] at forms
    rwa [← forms.place_unique labels nodup (h'.formed y hy)]

end Any

/-! ## What the closing adds -/

section Exact
variable {K : Type} [Field K] [LinearOrder K] [IsStrictOrderedRing K] [Hypot K]
  {qs : List (Inequality K)}

/-- Claims with lines have corners, and these are accounted for. -/
theorem exists_account (solved : solvedOf qs = qs) (lines : AllHaveLines qs) :
    ∃ found, ofInequalities qs = .ok (found.map (·.2)) ∧ Account qs found := by
  have answerable : Answerable (solvedOf qs) := by
    rw [solved]
    exact answerable_of_lines lines
  obtain ⟨found, run, account⟩ := (accounted_iff Point.near_comm_of_field).2 answerable
  rw [solved] at account
  exact ⟨found, run, account⟩

/-- Every pair that forms a corner has it found, or a near one. -/
theorem Account.exists_near {found : List (Places × Corner K)} (h : Account qs found) {k : Places}
    {corner : Corner K} (forms : Forms qs k corner) :
    ∃ x ∈ found, corner.point.near x.2.point = true := by
  rcases h.complete k corner forms with own | ⟨x, hx, -, near⟩
  · exact ⟨_, own, corner.point.near_self_of_field⟩
  · exact ⟨x, hx, near⟩

/-- The corners of a list that is solved right, before and after the closing: a pair forms a corner
if it forms one after it and no other strict inequality touches the crossing. So nothing is lost by
the closing, up to near corners, and what it adds are corners whose pairs were barred. The corners
and the pairs that form them stay the same exactly if none of those found after it was barred. -/
theorem closing_adds_barred (right : ∀ q ∈ qs, q.SolvedRight) :
    (∀ k corner, Forms qs k corner ↔
      Forms (qs.map Inequality.closed) k corner ∧ Unbarred qs k corner.point) ∧
    ∃ found closedFound : List (Places × Corner K),
      ofInequalities qs = .ok (found.map (·.2)) ∧
      ofInequalities (qs.map Inequality.closed) = .ok (closedFound.map (·.2)) ∧
      Account qs found ∧ Account (qs.map Inequality.closed) closedFound ∧
      (∀ x ∈ found, ∃ y ∈ closedFound, x.2.point.near y.2.point = true) ∧
      (∀ k corner, Forms (qs.map Inequality.closed) k corner → Unbarred qs k corner.point →
        ∃ x ∈ found, corner.point.near x.2.point = true) ∧
      (found = closedFound ↔ ∀ y ∈ closedFound, Unbarred qs y.1 y.2.point) ∧
      ((qs.map (·.label)).Nodup →
        (ofInequalities qs = ofInequalities (qs.map Inequality.closed) ↔
          ∀ y ∈ closedFound, Unbarred qs y.1 y.2.point)) := by
  have all := solvedOf_eq_self right
  have closedAll : solvedOf (qs.map Inequality.closed) = qs.map Inequality.closed := by
    rw [solvedOf_closed, all]
  have lines : AllHaveLines qs := fun q hq => (right q hq).hasLine
  have closedLines : AllHaveLines (qs.map Inequality.closed) := List.forall_mem_map.2 lines
  have forms_iff (k : Places) (corner : Corner K) : Forms qs k corner ↔
      Forms (qs.map Inequality.closed) k corner ∧ Unbarred qs k corner.point :=
    forms_closed_iff fun q hq => (right q hq).isSolved
  obtain ⟨found, run, account⟩ := exists_account all lines
  obtain ⟨closedFound, closedRun, closedAccount⟩ := exists_account closedAll closedLines
  have kept : found = closedFound ↔ ∀ y ∈ closedFound, Unbarred qs y.1 y.2.point := by
    constructor
    · rintro rfl y hy
      exact ((forms_iff _ _).1 (account.formed y hy)).2
    · intro unbarred
      refine account.eq_of_formed closedAccount (fun x hx => ?_) fun y hy => ?_
      · exact ((forms_iff _ _).1 (account.formed x hx)).1
      · exact (forms_iff _ _).2 ⟨closedAccount.formed y hy, unbarred y hy⟩
  refine ⟨forms_iff, found, closedFound, run, closedRun, account, closedAccount, ?_, ?_, kept, ?_⟩
  · intro x hx
    exact closedAccount.exists_near ((forms_iff _ _).1 (account.formed x hx)).1
  · intro k corner forms unbarred
    exact account.exists_near ((forms_iff _ _).2 ⟨forms, unbarred⟩)
  · intro nodup
    rw [← kept, run, closedRun, Except.ok.injEq]
    refine ⟨account.eq_of_corners ?_ nodup closedAccount, congrArg _⟩
    rw [List.map_map]
    rfl

/-! ## Three strict lines through one point -/

omit [IsStrictOrderedRing K] in
/-- A crossing becomes a corner if the others accept it and none like it was found before. -/
theorem extend_of_crossing {q r : Inequality K} {others : List (Inequality K)} {p : Point K}
    {verdict : Bool} (crossing : q.form.crossing r.form = some p)
    (asked : allAccept p others = .ok verdict) (found : List (Corner K)) :
    extend found (q, r, others) =
      .ok (if verdict = false ∨ found.any (p.near ·.point) then found
        else found ++ [⟨p, (q.label, r.label)⟩]) := by
  simp only [extend, crossing, asked]
  cases verdict with
  | false => rfl
  | true =>
    cases found.any (p.near ·.point) with
    | false => rfl
    | true => rfl

/-- Three lines that cross in one point have it for a corner if all three accept it, and have none
if all refuse it. -/
theorem ofInequalities_concurrent {q r e : Inequality K} {p : Point K} {verdict : Bool}
    (solved : solvedOf [q, r, e] = [q, r, e]) (first : q.form.crossing r.form = some p)
    (second : q.form.crossing e.form = some p) (third : r.form.crossing e.form = some p)
    (verdicts : ∀ x ∈ [q, r, e], x.accepts p = .ok verdict) :
    ofInequalities [q, r, e] = .ok (if verdict then [⟨p, (q.label, r.label)⟩] else []) := by
  have run : ofInequalities [q, r, e] =
      [(q, r, [e]), (q, e, [r]), (r, e, [q])].foldlM extend [] := by
    show (pairsWithOthers (solvedOf [q, r, e])).foldlM extend [] = _
    rw [solved]
    rfl
  have asked {x : Inequality K} (hx : x ∈ [q, r, e]) : allAccept p [x] = .ok verdict := by
    rw [allAccept, verdicts x hx]
    cases verdict <;> rfl
  have near : p.near p = true := p.near_self_of_field
  rw [run]
  simp only [List.foldlM_cons, List.foldlM_nil]
  refine bind_ok_iff.2 ⟨_, extend_of_crossing first (asked (by simp)) [],
    bind_ok_iff.2 ⟨_, extend_of_crossing second (asked (by simp)) _,
      bind_ok_iff.2 ⟨_, extend_of_crossing third (asked (by simp)) _, ?_⟩⟩⟩
  cases verdict <;> simp [near] <;> rfl

end Exact

/-- The quarter above and to the right of the origin, which it leaves out, and a half plane that
holds it and touches it in the origin. -/
noncomputable def fan : List (Inequality ℝ) :=
  [⟨⟨1, 0, 0, .gt⟩, "d1", "", "", "", .solved (some .regionA)⟩,
    ⟨⟨0, 1, 0, .gt⟩, "d2", "", "", "", .solved (some .regionB)⟩,
    ⟨⟨1, 1, 0, .gt⟩, "d3", "", "", "", .solved (some .regionB)⟩]

theorem fan_solved : ∀ q ∈ fan, q.SolvedRight := by
  have missing : LinearForm.Counted (0 : ℝ) := .inl rfl
  have counts : LinearForm.Counted (1 : ℝ) := .inr (by rw [abs_one]; exact tolerance_le_one)
  have right {a b : ℝ} {side : Side} (first : LinearForm.Counted a)
      (second : LinearForm.Counted b) (unknowns : ¬ (a = 0 ∧ b = 0))
      (wanted : (if b = 0 then .towards (-a) else .towards b) = side) (label : String) :
      Inequality.SolvedRight ⟨⟨a, b, 0, .gt⟩, label, "", "", "", .solved (some side)⟩ := by
    have proper : LinearForm.Proper ⟨a, b, 0, .gt⟩ := ⟨first, second, unknowns⟩
    have correct := proper.correctSide_eq Operator.noConfusion
    simp only [Operator.sense, one_mul, wanted] at correct
    exact ⟨some side, correct, rfl⟩
  simp only [fan, List.forall_mem_cons]
  refine ⟨right counts missing (by simp) ?_ _, right missing counts (by simp) ?_ _,
    right counts counts (by simp) ?_ _, by simp⟩ <;> simp [Side.towards]

/-- Lines through the origin cross there if their determinant counts. -/
theorem crossing_origin {f g : LinearForm ℝ} (hf : f.c = 0) (hg : g.c = 0)
    (counts : tolerance ≤ |f.det g|) : f.crossing g = some ⟨0, 0⟩ := by
  refine LinearForm.crossing_eq_some_iff.2 ⟨counts, ?_⟩
  simp only [LinearForm.common, hf, hg, mul_zero, sub_zero, zero_div]

theorem fan_run : ofInequalities fan = .ok [] := by
  have refused : ∀ q ∈ fan, q.accepts ⟨0, 0⟩ = .ok false := by
    simp [fan, Inequality.accepts, LinearForm.accepts, LinearForm.evaluate, Operator.strict,
      tolerance_pos]
  refine (ofInequalities_concurrent rfl ?_ ?_ ?_ refused).trans rfl
  all_goals exact crossing_origin rfl rfl (by simp [LinearForm.det, tolerance_le_one])

theorem fan_closed_run :
    ofInequalities (fan.map Inequality.closed) = .ok [⟨⟨0, 0⟩, ("d1", "d2")⟩] := by
  have accepted : ∀ q ∈ fan.map Inequality.closed, q.accepts ⟨0, 0⟩ = .ok true := by
    simp [fan, Inequality.closed, LinearForm.closed, Inequality.accepts, LinearForm.accepts,
      LinearForm.evaluate, tolerance_pos]
  refine (ofInequalities_concurrent rfl ?_ ?_ ?_ accepted).trans rfl
  all_goals
    exact crossing_origin rfl rfl
      (by simp [LinearForm.det, LinearForm.closed, Inequality.closed, tolerance_le_one])

/-- Every claim is right, and every pair of lines crosses in the corner that is found once the lines
belong to the region. As they are, none is found. -/
theorem not_always_closed_alike :
    (∀ q ∈ fan, q.SolvedRight) ∧ ofInequalities fan = .ok [] ∧
      ofInequalities (fan.map Inequality.closed) = .ok [⟨⟨0, 0⟩, ("d1", "d2")⟩] :=
  ⟨fan_solved, fan_run, fan_closed_run⟩

/-- The first two lines alone have the same corners before and after the closing. The third one bars
what it adds for all three. -/
theorem closing_of_fan :
    ofInequalities (fan.take 2) = ofInequalities ((fan.take 2).map Inequality.closed) ∧
      ∃ k, Forms (fan.map Inequality.closed) k ⟨⟨0, 0⟩, ("d1", "d2")⟩ ∧
        ¬ Unbarred fan k ⟨0, 0⟩ := by
  constructor
  · have pair : ∀ q ∈ fan.take 2, q.SolvedRight := fun q hq =>
      fan_solved q (List.mem_of_mem_take hq)
    obtain ⟨-, found, closedFound, -, -, -, account, -, -, -, same⟩ := closing_adds_barred pair
    refine (same (by simp [fan])).2 fun y hy => ?_
    obtain ⟨_, _, closed, -⟩ := account.formed y hy
    obtain ⟨q, r, pick, -, -⟩ := Places.pick_map_iff.1 closed
    have alone : y.1.others (fan.take 2) = [] := Places.Pick.others_pair pick
    rw [Unbarred, alone]
    exact List.forall_mem_nil _
  · obtain ⟨forms, found, closedFound, run, closedRun, account, closedAccount, -, kept, -⟩ :=
      closing_adds_barred fan_solved
    obtain rfl : found = [] := List.map_eq_nil_iff.1 (Except.ok.inj (run.symm.trans fan_run))
    obtain ⟨x, hx, corner⟩ := List.map_eq_singleton_iff.1
      (Except.ok.inj (closedRun.symm.trans fan_closed_run))
    have formed := closedAccount.formed x (by simp [hx])
    rw [corner] at formed
    refine ⟨x.1, formed, fun unbarred => ?_⟩
    obtain ⟨_, none, -⟩ := kept _ _ formed unbarred
    exact List.not_mem_nil none

end Corner
end HalfPlane
