/-
Forms of doubles: which can be compared, and which can be written out.

A form one of whose unknowns counts has a normal whose length is not zero, so two of them
can always be compared (`sameAs_ok`). Only forms with finite coefficients can be written out
(`plain_succeeds_iff`), and the others are not the same as any form (`finite_of_sameAs`).
-/
import HalfPlane.Proofs.Double.Finite
import HalfPlane.Proofs.Form.Unit
import HalfPlane.Proofs.Register

namespace HalfPlane.LinearForm
open Scalar Double

/-- One of the unknowns counts. -/
def HasUnknown (f : LinearForm Float) : Prop := (isZero f.a && isZero f.b) = false

structure Finite (f : LinearForm Float) : Prop where
  a : f.a.isFinite = true
  b : f.b.isFinite = true
  c : f.c.isFinite = true

variable {f g : LinearForm Float}

theorem HasLine.hasUnknown (h : f.HasLine) : f.HasUnknown := by
  rw [HasUnknown, Bool.and_eq_false_iff]
  exact h.symm.imp id isZero_of_tolerance_le_abs

theorem hasUnknown_of_read {text : String} (h : ofText? text = some f) : f.HasUnknown := by
  unfold ofText? at h
  split at h
  · cases h
  · exact (settled_of_ofShape? h).2.2

/-! ## Comparing forms -/

theorem HasUnknown.unitForm_eq (h : f.HasUnknown) : f.unitForm = .ok f.scaled.turned := by
  refine LinearForm.unitForm_eq (isZero_hypot ?_)
  rwa [HasUnknown, Bool.and_eq_false_iff] at h

theorem sameAs_ok (hf : f.HasUnknown) (hg : g.HasUnknown) : ∃ same, f.sameAs g = .ok same := by
  rw [sameAs, hf.unitForm_eq, hg.unitForm_eq]
  exact ⟨_, rfl⟩

theorem Finite.of_scaled (h : f.scaled.Finite) : f.Finite :=
  ⟨isFinite_of_div h.a, isFinite_of_div h.b, isFinite_of_div h.c⟩

theorem Finite.of_turned (h : f.turned.Finite) : f.Finite := by
  rcases f.turned_cases with turned | turned <;> rw [turned] at h
  · exact ⟨isFinite_of_neg h.a, isFinite_of_neg h.b, isFinite_of_neg h.c⟩
  · exact h

/-- Only a form with finite coefficients is the same as another. -/
theorem finite_of_sameAs (hf : f.HasUnknown) (hg : g.HasUnknown) (h : f.sameAs g = .ok true) :
    f.Finite := by
  rw [sameAs, hf.unitForm_eq, hg.unitForm_eq] at h
  have close := Except.ok.inj h
  simp only [Bool.and_eq_true] at close
  obtain ⟨⟨⟨-, a⟩, b⟩, c⟩ := close
  exact Finite.of_scaled (.of_turned
    ⟨isFinite_of_sub (isFinite_of_negligible a), isFinite_of_sub (isFinite_of_negligible b),
      isFinite_of_sub (isFinite_of_negligible c)⟩)

/-! ## Writing forms out -/

theorem plainNumber_succeeds_iff {x : Float} : Succeeds (plainNumber x) ↔ x.isFinite = true := by
  rw [← nearest?_ok_iff]
  constructor
  · rintro ⟨text, h⟩
    obtain ⟨n, nearest, -⟩ := bind_ok_iff.1 h
    exact ⟨n, nearest⟩
  · rintro ⟨n, nearest⟩
    unfold plainNumber
    rw [nearest]
    show Succeeds (if _ then _ else _)
    split <;> exact .pure _

theorem plainTerm_succeeds_iff {first : Bool} {x : Float} {unknown : String} :
    Succeeds (plainTerm first x unknown) ↔ x.isFinite = true := by
  unfold plainTerm
  dsimp only
  split
  · next one =>
    have finite := isFinite_of_sub (isFinite_of_negligible one)
    rw [isFinite_abs] at finite
    exact ⟨fun _ => finite, fun _ => .pure _⟩
  · rw [← isFinite_abs, ← plainNumber_succeeds_iff]
    constructor
    · rintro ⟨text, h⟩
      obtain ⟨factor, h, -⟩ := bind_ok_iff.1 h
      exact ⟨factor, h⟩
    · exact fun h => h.bind fun _ => .pure _

theorem plainConstant_succeeds_iff {x : Float} :
    Succeeds (plainConstant x) ↔ x.isFinite = true := by
  rw [← isFinite_abs, ← plainNumber_succeeds_iff]
  constructor
  · rintro ⟨text, h⟩
    obtain ⟨magnitude, h, -⟩ := bind_ok_iff.1 h
    exact ⟨magnitude, h⟩
  · exact fun h => h.bind fun _ => .pure _

/-- A term is left out where its coefficient is zero, and what is written behind it does not
depend on it. -/
theorem part_succeeds_iff {x : Float} {term : Except Fault String}
    {behind : String → Except Fault String} {P : Prop} (h : Succeeds term ↔ x.isFinite = true)
    (hb : ∀ text, Succeeds (behind text) ↔ P) :
    Succeeds (if isZero x then pure "" >>= behind else term >>= behind) ↔
      x.isFinite = true ∧ P := by
  split
  · next zero => exact (hb "").trans (and_iff_right (isFinite_of_isZero zero)).symm
  · rw [← h]
    constructor
    · rintro ⟨text, written⟩
      obtain ⟨front, first, rest⟩ := bind_ok_iff.1 written
      exact ⟨⟨front, first⟩, (hb front).1 ⟨text, rest⟩⟩
    · rintro ⟨first, rest⟩
      exact first.bind fun front => (hb front).2 rest

theorem plain_succeeds_iff : Succeeds f.plain ↔ f.Finite := by
  have parts : Succeeds f.plain ↔
      f.a.isFinite = true ∧ f.b.isFinite = true ∧ f.c.isFinite = true ∧ True :=
    part_succeeds_iff plainTerm_succeeds_iff fun _ =>
      part_succeeds_iff plainTerm_succeeds_iff fun _ =>
        part_succeeds_iff plainConstant_succeeds_iff fun _ => iff_true_intro (.pure _)
  exact parts.trans ⟨fun ⟨a, b, c, _⟩ => ⟨a, b, c⟩, fun h => ⟨h.a, h.b, h.c, trivial⟩⟩

/-! ## Why a form cannot be written out -/

/-- A computation fails for no other cause than that a number has no integer beside it. -/
def FailsUnbounded {β : Type} (x : Except Fault β) : Prop :=
  ∀ e, x = .error e → ∃ why, e = .unbounded why

theorem FailsUnbounded.pure {β : Type} (r : β) : FailsUnbounded (Pure.pure r) := by
  intro e h
  cases h

theorem FailsUnbounded.bind {β γ : Type} {x : Except Fault β} {k : β → Except Fault γ}
    (hx : FailsUnbounded x) (hk : ∀ r, FailsUnbounded (k r)) : FailsUnbounded (x >>= k) := by
  cases x with
  | error e => exact fun e' h => hx e' (by cases h; rfl)
  | ok r => exact hk r

theorem failsUnbounded_nearest? (x : Float) : FailsUnbounded (nearest? x) := by
  intro e h
  unfold nearest? at h
  cases value : (Exact.numeral x).nearest? with
  | error why => rw [value] at h; cases h; exact ⟨why, rfl⟩
  | ok n => rw [value] at h; cases h

theorem failsUnbounded_plainNumber (x : Float) : FailsUnbounded (plainNumber x) := by
  refine (failsUnbounded_nearest? x).bind fun n => ?_
  split <;> exact .pure _

theorem failsUnbounded_plainTerm (first : Bool) (x : Float) (unknown : String) :
    FailsUnbounded (plainTerm first x unknown) := by
  unfold plainTerm
  dsimp only
  split
  · exact .pure _
  · exact (failsUnbounded_plainNumber _).bind fun _ => .pure _

theorem failsUnbounded_plain (f : LinearForm Float) : FailsUnbounded f.plain := by
  have part : ∀ {skip : Bool} {term : Except Fault String} {behind : String → Except Fault String},
      FailsUnbounded term → (∀ text, FailsUnbounded (behind text)) →
      FailsUnbounded (if skip then Pure.pure "" >>= behind else term >>= behind) := by
    intro skip term behind front rest
    cases skip
    · exact front.bind rest
    · exact rest ""
  exact part (failsUnbounded_plainTerm _ _ _) fun _ =>
    part (failsUnbounded_plainTerm _ _ _) fun _ =>
    part ((failsUnbounded_plainNumber _).bind fun _ => .pure _) fun _ => .pure _

end HalfPlane.LinearForm
