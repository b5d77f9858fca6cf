/-
Forms with a line: nothing that is worked out from them is refused.

A form has a line when one of its unknowns counts: the second one against the tolerance,
or else the first one against zero. That is exactly what the far points of the line are
divided by (`boundary`, `of_boundary`), and everything else about the line, its claims and its
controls is worked out from those.
-/
import HalfPlane.Proofs.Arithmetic
import HalfPlane.Proofs.Success
import HalfPlane.Scene.Target

namespace HalfPlane
open Scalar

/-! ## The line of a form -/

variable {α : Type}

/-- One of the unknowns counts enough to divide by. -/
def LinearForm.HasLine [Scalar α] (f : LinearForm α) : Prop :=
  tolerance ≤ Scalar.abs f.b ∨ isZero f.a = false

variable [Scalar α] {f : LinearForm α}

instance : Decidable f.HasLine := inferInstanceAs (Decidable (_ ∨ _))

namespace LinearForm.HasLine

theorem boundary (h : f.HasLine) : Succeeds f.boundary := by
  unfold LinearForm.boundary
  split
  · exact .ok _
  · next small =>
    have counts : isZero f.a = false := h.resolve_left small
    simp only [quotient, counts]
    exact .ok _

/-- Only a form with a line has far points. -/
theorem of_boundary (h : Succeeds f.boundary) : f.HasLine := by
  unfold LinearForm.boundary at h
  split at h
  · next counts => exact .inl counts
  · obtain ⟨_, h⟩ := h
    obtain ⟨x, quotient, -⟩ := bind_ok_iff.1 h
    refine .inr (Bool.eq_false_iff.2 fun zero => ?_)
    rw [Scalar.quotient, if_pos zero] at quotient
    cases quotient

theorem midpoint (h : f.HasLine) : Succeeds f.midpoint :=
  h.boundary.bind fun _ => .pure _

variable [Hypot α]

theorem unitNormal (h : f.HasLine) : Succeeds f.unitNormal := by
  refine h.boundary.bind fun (p, q) => ?_
  dsimp only
  split <;> exact .pure _

theorem anchor (h : f.HasLine) (side : Side) (offset : α) : Succeeds (f.anchor side offset) := by
  refine h.unitNormal.bind fun n? => ?_
  cases n? with
  | none => exact .pure _
  | some n => exact h.midpoint.bind fun _ => .pure _

theorem mark (h : f.HasLine) (side : Side) : Succeeds (f.mark side) := h.anchor side _

theorem sideSatisfies (h : f.HasLine) (side : Side) : Succeeds (f.sideSatisfies side) := by
  refine (h.mark side).bind fun p? => ?_
  cases p? <;> exact .pure _

theorem accepts (h : f.HasLine) (solution : Solution) (p : Point α) :
    Succeeds (f.accepts solution p) := by
  unfold LinearForm.accepts
  split
  · exact .ok _
  · dsimp only
    split
    · exact .ok _
    · split
      · exact .ok _
      · exact .ok _
      · refine h.unitNormal.bind fun n? => ?_
        cases n? <;> exact .pure _

theorem fillDirection (h : f.HasLine) (claimed : Option Side) :
    Succeeds (f.fillDirection claimed) := by
  unfold LinearForm.fillDirection
  split
  · exact .pure _
  · refine h.unitNormal.bind fun n? => ?_
    cases n? with
    | none => exact .pure _
    | some n =>
      match claimed with
      | some .regionA | some .regionB => exact .pure _
      | none => exact h.midpoint.bind fun _ => .pure _

theorem shade (h : f.HasLine) (claimed : Option Side) : Succeeds (f.shade claimed) := by
  refine (h.fillDirection claimed).bind fun d? => ?_
  cases d? with
  | none => exact .pure _
  | some d => exact h.boundary.bind fun _ => .pure _

end LinearForm.HasLine

def AllHaveLines (qs : List (Inequality α)) : Prop := ∀ q ∈ qs, q.form.HasLine

theorem AllHaveLines.of_subset {qs rs : List (Inequality α)} (h : AllHaveLines qs)
    (sub : rs ⊆ qs) : AllHaveLines rs :=
  fun q hq => h q (sub hq)

theorem AllHaveLines.of_cons {q : Inequality α} {qs : List (Inequality α)}
    (h : AllHaveLines (q :: qs)) : q.form.HasLine ∧ AllHaveLines qs :=
  ⟨h q (by simp), fun r hr => h r (by simp [hr])⟩

variable [Hypot α]

/-! ## Controls -/

namespace Control

theorem ofSide_succeeds {q : Inequality α} (h : q.form.HasLine) (v : View α) (side : Side) :
    Succeeds (ofSide q v side) := by
  refine (h.mark side).bind fun p? => ?_
  cases p? with
  | none => exact .pure _
  | some p => exact (h.sideSatisfies side).bind fun _ => .pure _

theorem ofInequalities_succeeds (v : View α) :
    ∀ {qs : List (Inequality α)}, AllHaveLines qs → Succeeds (ofInequalities v qs)
  | [], _ => .ok _
  | q :: qs, h => by
    obtain ⟨line, rest⟩ := h.of_cons
    simp only [ofInequalities]
    split
    · exact ofInequalities_succeeds v rest
    · exact (ofSide_succeeds line v _).bind fun _ => (ofSide_succeeds line v _).bind fun _ =>
        (ofInequalities_succeeds v rest).bind fun _ => .pure _

theorem label_of_ofSide {q : Inequality α} {v : View α} {side : Side} {c : Control α}
    (h : ofSide q v side = .ok (some c)) : c.label = q.label := by
  obtain ⟨p?, -, h⟩ := bind_ok_iff.1 h
  cases p? with
  | none => cases h
  | some p =>
    obtain ⟨satisfies, -, h⟩ := bind_ok_iff.1 h
    cases h
    rfl

/-- A control belongs to a side of an unsolved inequality. -/
theorem exists_ofSide {v : View α} {c : Control α} :
    ∀ {qs : List (Inequality α)} {cs : List (Control α)}, ofInequalities v qs = .ok cs → c ∈ cs →
      ∃ q ∈ qs, q.solution.isSolved = false ∧ ∃ side, ofSide q v side = .ok (some c)
  | [], cs, h, hc => by
    cases h
    cases hc
  | q :: qs, cs, h, hc => by
    simp only [ofInequalities] at h
    split at h
    · obtain ⟨r, hr, facts⟩ := exists_ofSide h hc
      exact ⟨r, by simp [hr], facts⟩
    · next unsolved =>
      obtain ⟨a, ha, h⟩ := bind_ok_iff.1 h
      obtain ⟨b, hb, h⟩ := bind_ok_iff.1 h
      obtain ⟨more, hm, h⟩ := bind_ok_iff.1 h
      cases h
      simp only [List.mem_append, Option.mem_toList] at hc
      rcases hc with (rfl | rfl) | hc
      · exact ⟨q, by simp, Bool.eq_false_iff.2 unsolved, _, ha⟩
      · exact ⟨q, by simp, Bool.eq_false_iff.2 unsolved, _, hb⟩
      · obtain ⟨r, hr, facts⟩ := exists_ofSide hm hc
        exact ⟨r, by simp [hr], facts⟩

theorem label_of_mem {v : View α} {c : Control α} {qs : List (Inequality α)}
    {cs : List (Control α)} (h : ofInequalities v qs = .ok cs) (hc : c ∈ cs) :
    ∃ q ∈ qs, q.label = c.label ∧ q.solution.isSolved = false := by
  obtain ⟨q, hq, unsolved, side, made⟩ := exists_ofSide h hc
  exact ⟨q, hq, (label_of_ofSide made).symm, unsolved⟩

end Control
end HalfPlane
