/-
What casting a text comes to.

A text is blank, or spells out nothing, or spells out what is on the board already, or is
added (`Casts`). Casting never fails but for one cause: a form with a coefficient beyond the
range of doubles has no text, and by the time this shows its label and its colour are used
up (`Reachable.add_casts`).
-/
import HalfPlane.Proofs.Board.Reachable
import HalfPlane.Proofs.Double.Forms
import HalfPlane.Proofs.Formula.Reading

namespace HalfPlane

namespace Board
open LinearForm
open Formula (Literal Reading ofText_of_text)

/-! ## Forms on the board -/

section Among
variable {α : Type} [Scalar α] [Hypot α] {form : LinearForm α}

theorem isAmong_cases :
    ∀ {qs : List (Inequality α)}, (∀ q ∈ qs, ∃ same, form.sameAs q.form = .ok same) →
      (isAmong form qs = .ok true ∧ ∃ q ∈ qs, form.sameAs q.form = .ok true) ∨
        (isAmong form qs = .ok false ∧ ∀ q ∈ qs, form.sameAs q.form = .ok false)
  | [], _ => .inr ⟨rfl, fun q hq => by cases hq⟩
  | q :: qs, compares => by
    obtain ⟨same, first⟩ := compares q (by simp)
    have step : isAmong form (q :: qs) = if same then .ok true else isAmong form qs := by
      rw [isAmong, first]
      cases same <;> rfl
    rw [step]
    cases same with
    | true => exact .inl ⟨rfl, q, by simp, first⟩
    | false =>
      have further : ∀ r ∈ qs, ∃ same, form.sameAs r.form = .ok same :=
        fun r hr => compares r (by simp [hr])
      rcases isAmong_cases further with ⟨h, r, hr, same⟩ | ⟨h, none⟩
      · exact .inl ⟨h, r, by simp [hr], same⟩
      · exact .inr ⟨h, List.forall_mem_cons.2 ⟨first, none⟩⟩

end Among

/-! ## Outcomes -/

section Outcomes
variable {α : Type}

/-- Nothing changed but what was said and what is remembered of texts. -/
def Kept (b b' : Board α) : Prop :=
  ∃ memo said, b' = { b with register := { b.register with memo }, said }

variable [Scalar α] [Hypot α]

/-- A form was added, with the next label and the next colour. -/
structure Extended (form : LinearForm α) (b b' : Board α) : Prop where
  inequalities : ∃ q, b'.inequalities = b.inequalities ++ [q] ∧ q.form = form ∧
    q.label = b.register.nextLabel.1 ∧ q.color = b.register.nextColor.1 ∧
    q.solution = .start form.operator
  labels : b'.register.labels = b.register.labels + 1
  colors : b'.register.colors = b.register.colors.next.2

/-- What casting a text can come to. -/
inductive Casts (b : Board α) (text : String) : Feedback → Board α → Prop where
  | blank {b' : Board α} : Text.allBlank text = true → b.Kept b' → Casts b text .blankText b'
  | unreadable {b' : Board α} : Text.allBlank text = false →
      (ofText? text : Option (LinearForm α)) = none → b.Kept b' → Casts b text .unreadable b'
  | duplicate {b' : Board α} {form : LinearForm α} {q : Inequality α} :
      Text.allBlank text = false → ofText? text = some form → q ∈ b.inequalities →
      form.sameAs q.form = .ok true → b.Kept b' → Casts b text .duplicate b'
  | added {b' : Board α} {form : LinearForm α} :
      Text.allBlank text = false → ofText? text = some form →
      (∀ q ∈ b.inequalities, form.sameAs q.form = .ok false) → Extended form b b' →
      Casts b text .added b'

/-- What a text comes to is settled by the text and the board. -/
theorem Casts.unique {b b' b'' : Board α} {text : String} {f f' : Feedback}
    (h : b.Casts text f b') (h' : b.Casts text f' b'') : f = f' := by
  cases h <;> cases h' <;> simp_all

/-! ## Casting a text -/

theorem add_blank [Exact α] {b : Board α} {text : String} (h : Text.allBlank text = true) :
    b.add text = b.say .blankText := by
  rw [add, if_pos h]

/-- The board after the text was read. -/
def afterReading (b : Board α) (text : String) : Board α :=
  { b with register := (b.register.read text).2 }

theorem add_unreadable [Exact α] {b : Board α} {text : String} (honest : b.register.Honest)
    (written : Text.allBlank text = false) (h : (ofText? text : Option (LinearForm α)) = none) :
    b.add text = (b.afterReading text).say .unreadable := by
  have read := honest.read_form text
  rw [h] at read
  simp only [add, written, read, Bool.false_eq_true, if_false]
  rfl

/-- The board after a form was entered, which may have failed. -/
def afterEntering [Exact α] (b : Board α) (text : String) (form : LinearForm α) : Board α :=
  { b with register := ((b.register.read text).2.enter form).2 }

theorem add_read [Exact α] {b : Board α} {text : String} {form : LinearForm α}
    (honest : b.register.Honest) (written : Text.allBlank text = false)
    (h : ofText? text = some form) :
    b.add text =
      match isAmong form b.inequalities with
      | .error e => (.error e, b.afterReading text)
      | .ok true => (b.afterReading text).say .duplicate
      | .ok false =>
        match ((b.register.read text).2.enter form).1 with
        | .error e => (.error e, b.afterEntering text form)
        | .ok q =>
          { b.afterEntering text form with
            inequalities := b.inequalities ++ [q] }.refreshAndSay .added := by
  have read := honest.read_form text
  rw [h] at read
  simp only [add, written, read, Bool.false_eq_true, if_false]
  rfl

end Outcomes

section Reachable
variable {b : Board Float} {text : String} {form : LinearForm Float}

/-- Forms that were read can be compared with those on a board. -/
theorem Sound.compares (sound : b.Sound) (h : ofText? text = some form) :
    ∀ q ∈ b.inequalities, ∃ same, form.sameAs q.form = .ok same :=
  fun q hq => sameAs_ok (hasUnknown_of_read h) (sound.lines q hq).hasUnknown

theorem Sound.add_duplicate (sound : b.Sound) (written : Text.allBlank text = false)
    (h : ofText? text = some form) {q : Inequality Float} (hq : q ∈ b.inequalities)
    (same : form.sameAs q.form = .ok true) :
    b.add text = (b.afterReading text).say .duplicate := by
  rw [add_read sound.honest written h]
  rcases isAmong_cases (sound.compares h) with ⟨among, -⟩ | ⟨-, none⟩
  · rw [among]
  · rw [none q hq] at same
    cases same

/-- A form without a text fails with its label and its colour used up. -/
theorem Sound.add_unwritable (sound : b.Sound) (written : Text.allBlank text = false)
    (h : ofText? text = some form) (infinite : ¬ form.Finite) :
    ∃ why, b.add text = (.error (.unbounded why), b.afterEntering text form) := by
  have none : isAmong form b.inequalities = .ok false := by
    rcases isAmong_cases (sound.compares h) with ⟨-, q, hq, same⟩ | ⟨none, -⟩
    · exact absurd (finite_of_sameAs (hasUnknown_of_read h) (sound.lines q hq).hasUnknown same)
        infinite
    · exact none
  rw [add_read sound.honest written h, none]
  cases plain : form.plain with
  | ok text => exact absurd (plain_succeeds_iff.1 ⟨text, plain⟩) infinite
  | error e =>
    obtain ⟨why, rfl⟩ := failsUnbounded_plain form e plain
    have failed : ((b.register.read text).2.enter form).1 = .error (.unbounded why) := by
      simp only [Register.enter, plain]
      rfl
    exact ⟨why, by simp only [failed]⟩

theorem Sound.add_added (sound : b.Sound) (written : Text.allBlank text = false)
    (h : ofText? text = some form) (finite : form.Finite)
    (other : ∀ q ∈ b.inequalities, form.sameAs q.form = .ok false) :
    (b.add text).1 = .ok .added ∧ Extended form b (b.add text).2 := by
  have none : isAmong form b.inequalities = .ok false := by
    rcases isAmong_cases (sound.compares h) with ⟨-, q, hq, same⟩ | ⟨none, -⟩
    · rw [other q hq] at same
      cases same
    · exact none
  obtain ⟨plain, writes⟩ := plain_succeeds_iff.2 finite
  obtain ⟨memo, read⟩ := b.register.read_memo text
  let q : Inequality Float := ⟨form, b.register.nextLabel.1, b.register.nextColor.1, plain,
    form.latex, .start form.operator⟩
  have entered : ((b.register.read text).2.enter form).1 = .ok q := by
    simp only [Register.enter, writes, read]
    rfl
  have lines : AllHaveLines (b.inequalities ++ [q]) := by
    intro r hr
    rcases List.mem_append.1 hr with hr | hr
    · exact sound.lines r hr
    · rw [List.mem_singleton.1 hr]
      exact hasLine_of_read h ⟨plain, writes⟩
  obtain ⟨corners, -, refreshed⟩ := refreshAndSay_eq (α := Float)
    (b := { b.afterEntering text form with inequalities := b.inequalities ++ [q] }) lines .added
  rw [add_read sound.honest written h, none]
  simp only [entered, refreshed]
  refine ⟨trivial, ⟨q, rfl, rfl, rfl, rfl, rfl⟩, ?_, ?_⟩
  · simp only [afterEntering, read]
    rfl
  · simp only [afterEntering, read]
    rfl

/-! ## Every text -/

/-- Nothing is beyond the range of doubles in the form of a text. -/
def Writable (text : String) : Prop :=
  Text.allBlank text = false → ∀ form : LinearForm Float, ofText? text = some form → form.Finite

/-- What becomes of a text is one of the outcomes, for every text that is `Writable`. For the
others casting fails. -/
theorem Reachable.add_casts (h : b.Reachable) (text : String) :
    ((∃ f, (b.add text).1 = .ok f ∧ b.Casts text f (b.add text).2) ↔ Writable text) ∧
      (∀ f f' b' b'', b.Casts text f b' → b.Casts text f' b'' → f = f') ∧
      (¬ Writable text → ∃ why, (b.add text).1 = .error (.unbounded why)) := by
  have sound := h.sound
  have fails : ¬ Writable text → ∃ why, (b.add text).1 = .error (.unbounded why) := by
    intro beyond
    simp only [Writable, not_forall] at beyond
    obtain ⟨written, form, read, infinite⟩ := beyond
    obtain ⟨why, failed⟩ := sound.add_unwritable written read infinite
    exact ⟨why, by rw [failed]⟩
  refine ⟨⟨?_, fun writable => ?_⟩, fun _ _ _ _ => Casts.unique, fails⟩
  · rintro ⟨f, result, -⟩
    by_contra beyond
    obtain ⟨why, failed⟩ := fails beyond
    rw [failed] at result
    cases result
  · have kept : ∀ f, b.Kept ((b.afterReading text).say f).2 := by
      intro f
      obtain ⟨memo, read⟩ := b.register.read_memo text
      rw [afterReading, read]
      exact ⟨memo, some f, rfl⟩
    cases written : Text.allBlank text with
    | true =>
      rw [add_blank written]
      exact ⟨_, rfl, .blank written ⟨_, _, rfl⟩⟩
    | false =>
      cases read : (ofText? text : Option (LinearForm Float)) with
      | none =>
        rw [add_unreadable sound.honest written read]
        exact ⟨_, rfl, .unreadable written read (kept _)⟩
      | some form =>
        rcases isAmong_cases (sound.compares read) with ⟨-, q, hq, same⟩ | ⟨-, other⟩
        · rw [sound.add_duplicate written read hq same]
          exact ⟨_, rfl, .duplicate written read hq same (kept _)⟩
        · obtain ⟨result, extended⟩ :=
            sound.add_added written read (writable written form read) other
          exact ⟨_, result, .added written read other extended⟩

theorem finite_of_all (h : (ofText? text : Option (LinearForm Float)).all
    (fun f => f.a.isFinite && f.b.isFinite && f.c.isFinite) = true) : Writable text := by
  intro _ form read
  rw [read, Option.all_some, Bool.and_eq_true, Bool.and_eq_true] at h
  exact ⟨h.1.1, h.1.2, h.2⟩

/-! ## A text beyond the range of doubles -/

/-- A number that is too large for a double. -/
def beyond : Literal := ⟨List.replicate 309 '9', false, []⟩

/-- A comparison of a multiple of `x` with zero, the factor too large for a double. -/
def beyondReading : Reading where
  left := ⟨none, .multiple beyond (by decide +kernel) false .x, []⟩
  comparison := .gt
  right := ⟨none, .constant ⟨['0'], false, []⟩ (by decide), []⟩

def beyondText : String := beyondReading.text

theorem toList_beyondText : beyondText.toList = beyond.whole ++ ['x', '>', '0'] := by
  have words : beyondReading.words =
      [.number beyond, .unknown .x, .comparison .gt, .number ⟨['0'], false, []⟩] := rfl
  have number : (Formula.Token.number beyond).chars = beyond.whole := by
    rw [Formula.Token.chars_number]
    exact (List.append_nil _).trans (List.append_nil _)
  rw [beyondText, Reading.text, String.toList_ofList, words]
  simp only [Formula.spelled_cons, Formula.spelled_nil, number]
  rfl

theorem written_beyondText : Text.allBlank beyondText = false := by
  rw [Text.allBlank, toList_beyondText]
  decide +kernel

theorem read_beyondText :
    ∃ form : LinearForm Float, ofText? beyondText = some form ∧ ¬ form.Finite := by
  have normal : beyondText = Formula.normalize beyondText := by
    have chars : Formula.normalChars (beyond.whole ++ ['x', '>', '0']) =
        beyond.whole ++ ['x', '>', '0'] := by decide +kernel
    rw [Formula.normalize, toList_beyondText, chars, ← toList_beyondText, String.ofList_toList]
  have infinite : (ofShape? (Shape.ofFormula beyondReading.formula) : Option (LinearForm Float)).any
      (fun f => !f.a.isFinite) = true := by decide +kernel
  obtain ⟨form, shape, infinite⟩ := (Option.any_eq_true _ _).1 infinite
  refine ⟨form, ?_, fun finite => ?_⟩
  · rw [ofText?, Shape.ofText, ofText_of_text normal]
    exact shape
  · rw [finite.a] at infinite
    cases infinite

theorem add_casts_of_twice : ∃ b : Board Float, b.Reachable ∧
    b.Casts "0 < x" .duplicate (b.add "0 < x").2 ∧
    ∃ why, (b.add beyondText).1 = .error (.unbounded why) := by
  obtain ⟨b, made, run⟩ := exists_made (p := fun b =>
    match ((b.after (.add "x > 0")).add "0 < x").1 with
    | .ok .duplicate => true
    | _ => false) (by decide +kernel)
  have reachable := (Reachable.made made).after (.add "x > 0")
  obtain ⟨f, result, casts⟩ :=
    (reachable.add_casts "0 < x").1.2 (finite_of_all (by decide +kernel))
  have same : f = .duplicate := by
    rw [result] at run
    cases f <;> first | rfl | cases run
  obtain ⟨form, read, infinite⟩ := read_beyondText
  have beyond : ¬ Writable beyondText := fun writable =>
    infinite (writable written_beyondText form read)
  exact ⟨_, reachable, same ▸ casts, (reachable.add_casts beyondText).2.2 beyond⟩

/-- Casting can fail. -/
theorem not_always_casts :
    ¬ ∀ b : Board Float, b.Reachable → ∀ text, ∃ f, (b.add text).1 = .ok f := by
  intro always
  obtain ⟨b, made, -⟩ := exists_made (p := fun _ => true) (by decide +kernel)
  obtain ⟨form, read, infinite⟩ := read_beyondText
  obtain ⟨why, failed⟩ :=
    (Reachable.made made).sound.add_unwritable written_beyondText read infinite
  obtain ⟨f, result⟩ := always b (.made made) beyondText
  rw [failed] at result
  cases result

end Reachable

end Board
end HalfPlane
