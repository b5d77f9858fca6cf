/-
What a register gives out: labels that are all different, and forms with a line.

The memory is honest: what it holds under a text is the form of that text, so reading
from memory is reading (`read_form`). A form that was read and could be written out has
a line, since its coefficients were settled against the tolerance and only numbers have
a text.
-/
import HalfPlane.Proofs.Geometry.Lines
import HalfPlane.Register
import Std.Data.String.ToNat

namespace HalfPlane
open Scalar

/-! ## The memory -/

namespace Memo
variable {β : Type} {m : Memo β} {text : String}

theorem mem_of_mem_lookup {e : String × β} (h : e ∈ (m.lookup text).2.entries) :
    e ∈ m.entries := by
  unfold lookup at h
  split at h
  · exact h
  · next found hf =>
    simp only [without, List.mem_append, List.mem_filter, List.mem_singleton] at h
    rcases h with ⟨h, -⟩ | rfl
    · exact h
    · exact List.mem_of_find?_eq_some hf

theorem mem_of_lookup {value : β} (h : (m.lookup text).1 = some value) :
    (text, value) ∈ m.entries := by
  unfold lookup at h
  split at h
  · cases h
  · next found hf =>
    cases h
    have same : found.1 = text := by simpa using List.find?_some hf
    rw [← same]
    exact List.mem_of_find?_eq_some hf

theorem mem_of_mem_store {value : β} {e : String × β} (h : e ∈ (m.store text value).entries) :
    e ∈ m.entries ∨ e = (text, value) := by
  have inAll := List.mem_of_mem_drop h
  simp only [without, List.mem_append, List.mem_filter, List.mem_singleton] at inAll
  exact inAll.imp And.left id

end Memo

namespace Register
variable {α : Type}

/-! ## Labels -/

/-- The labels given since the register was started, in the order they were given. -/
def given (r : Register α) : List String := (List.range r.labels).map fun n => r.label (n + 1)

theorem label_injective (r : Register α) {m n : Nat} (h : r.label m = r.label n) : m = n :=
  Nat.repr_injective ((String.append_right_inj _).1 h)

theorem given_nodup (r : Register α) : r.given.Nodup :=
  List.pairwise_map.2 (List.nodup_range.imp fun ne same =>
    ne (Nat.succ.inj (r.label_injective same)))

/-- A new register has nothing to give back. -/
theorem restart_of_ofPalette {palette : List String} {r : Register α}
    (h : ofPalette palette = .ok r) : r.restart = r := by
  unfold ofPalette make at h
  split at h
  · cases h
  · next colors hc =>
    split at h
    · cases h
    · cases h
      cases palette with
      | nil => cases hc
      | cons first others => cases hc; rfl

variable [Scalar α]

/-- A text is read from memory, or else from itself, and then it is remembered. -/
theorem read_eq (r : Register α) (text : String) :
    (∃ form, (r.memo.lookup text).1 = some form ∧
        r.read text = (form, { r with memo := (r.memo.lookup text).2 })) ∨
      r.read text = (LinearForm.ofText? text,
        { r with memo := (r.memo.lookup text).2.store text (LinearForm.ofText? text) }) := by
  unfold read lookUp
  rcases r.memo.lookup text with ⟨_ | form, memo⟩
  · exact .inr rfl
  · exact .inl ⟨form, rfl, rfl⟩

/-- Reading changes what is remembered, and nothing else. -/
theorem read_memo (r : Register α) (text : String) :
    ∃ memo, (r.read text).2 = { r with memo } := by
  rcases r.read_eq text with ⟨form, -, h⟩ | h <;> rw [h] <;> exact ⟨_, rfl⟩

theorem given_read (r : Register α) (text : String) : (r.read text).2.given = r.given := by
  rcases r.read_eq text with ⟨form, -, h⟩ | h <;> rw [h] <;> rfl

theorem given_enter [Exact α] (r : Register α) (form : LinearForm α) :
    (r.enter form).2.given = r.given ++ [r.label (r.labels + 1)] := by
  show (List.range (r.labels + 1)).map _ = _
  rw [List.range_succ, List.map_append]
  rfl

/-- An entry is its form, with the next label and the claim it starts with, written
out. -/
theorem enter_ok [Exact α] {r : Register α} {form : LinearForm α} {q : Inequality α}
    (h : (r.enter form).1 = .ok q) :
    q.form = form ∧ q.label = r.label (r.labels + 1) ∧ q.solution = .start form.operator ∧
      form.plain = .ok q.text := by
  simp only [enter, nextLabel, nextColor] at h
  cases ht : form.plain with
  | error e => rw [ht] at h; cases h
  | ok text =>
    rw [ht] at h
    cases h
    exact ⟨rfl, rfl, rfl, rfl⟩

/-- The label and the colour that a form used up are given back. -/
theorem restart_enter [Exact α] (r : Register α) (form : LinearForm α) :
    (r.enter form).2.restart = r.restart := by
  have colors : r.colors.next.2.restart = r.colors.restart := by
    unfold Colors.next
    dsimp only
    split <;> split <;> rfl
  simp only [enter, nextLabel, nextColor, restart, colors]

/-! ## An honest memory -/

/-- What is remembered under a text is its form. -/
def Honest (r : Register α) : Prop := ∀ e ∈ r.memo.entries, e.2 = LinearForm.ofText? e.1

namespace Honest
variable {r : Register α}

theorem read (h : r.Honest) (text : String) : (r.read text).2.Honest := by
  intro e he
  rcases r.read_eq text with ⟨form, -, hr⟩ | hr <;> rw [hr] at he
  · exact h e (Memo.mem_of_mem_lookup he)
  · rcases Memo.mem_of_mem_store he with he | rfl
    · exact h e (Memo.mem_of_mem_lookup he)
    · rfl

theorem enter [Exact α] (h : r.Honest) (form : LinearForm α) : (r.enter form).2.Honest := h

theorem restart (h : r.Honest) : r.restart.Honest := h

theorem read_form (h : r.Honest) (text : String) : (r.read text).1 = LinearForm.ofText? text := by
  rcases r.read_eq text with ⟨form, found, hr⟩ | hr <;> rw [hr]
  exact h _ (Memo.mem_of_lookup found)

end Honest

theorem honest_of_make {palette : List String} {initial : String} {memory : Int} {r : Register α}
    (h : make palette initial memory = .ok r) : r.Honest := by
  unfold make at h
  split at h
  · cases h
  · split at h
    · cases h
    · cases h
      intro e he
      cases he

end Register

/-! ## Forms that were read and written -/

section Lines
variable {α : Type} [Coordinate α]

/-- The coefficients of the unknowns are settled, and not both of them are zero. -/
def LinearForm.Settled (f : LinearForm α) : Prop :=
  (∃ a, f.a = settled a) ∧ (∃ b, f.b = settled b) ∧ (isZero f.a && isZero f.b) = false

theorem LinearForm.settled_of_ofCoefficients? {a b c : α} {comparison : Formula.Comparison}
    {f : LinearForm α} (h : ofCoefficients? a b c comparison = some f) : f.Settled := by
  unfold ofCoefficients? at h
  split at h
  · cases h
  · dsimp only at h
    split at h
    · cases h
    · next unknown =>
      cases h
      exact ⟨⟨a, rfl⟩, ⟨b, rfl⟩, Bool.eq_false_iff.2 unknown⟩

theorem LinearForm.settled_of_ofShape? {shape : Shape α} {f : LinearForm α}
    (h : ofShape? shape = some f) : f.Settled := by
  rcases shape with _ | ⟨_ | _⟩ | _ | _ <;> simp only [ofShape?] at h <;>
    exact settled_of_ofCoefficients? h

theorem plainTerm_of_plain {f : LinearForm α} (h : Succeeds f.plain)
    (term : isZero f.b = false) : Succeeds (LinearForm.plainTerm (isZero f.a) f.b "y") := by
  obtain ⟨text, h⟩ := h
  unfold LinearForm.plain at h
  simp only [term, Bool.false_eq_true, if_false] at h
  split at h <;>
    obtain ⟨x, -, h⟩ := bind_ok_iff.1 h <;>
    obtain ⟨y, hy, -⟩ := bind_ok_iff.1 h <;>
    exact ⟨y, hy⟩

variable [LawfulCoordinate α]
open LawfulCoordinate

theorem le_self_of_abs {x : α} (h : Scalar.abs x ≤ Scalar.abs x) : x ≤ x := by
  unfold Scalar.abs at h
  split at h
  · exact h
  · exact (le_self_of_sub h).2

/-- Only numbers have a text. -/
theorem le_self_of_plainNumber {x : α} (h : Succeeds (plainNumber x)) : x ≤ x := by
  obtain ⟨text, h⟩ := h
  obtain ⟨n, nearest, -⟩ := bind_ok_iff.1 h
  exact le_self_of_nearest nearest

theorem abs_le_self_of_plainTerm {first : Bool} {x : α} {unknown : String}
    (h : Succeeds (LinearForm.plainTerm first x unknown)) : Scalar.abs x ≤ Scalar.abs x := by
  obtain ⟨text, h⟩ := h
  unfold LinearForm.plainTerm at h
  dsimp only at h
  split at h
  · next one =>
    have counted : Scalar.abs (Scalar.abs x - 1.0) < tolerance := by simpa [negligible] using one
    exact (le_self_of_sub (le_self_of_abs (le_self_of_lt counted).1)).1
  · obtain ⟨factor, h, -⟩ := bind_ok_iff.1 h
    exact le_self_of_plainNumber ⟨factor, h⟩

theorem counts_of_settled {x : α} (h : isZero (LinearForm.settled x) = false) :
    negligible (LinearForm.settled x) = false := by
  unfold LinearForm.settled at h ⊢
  split
  · next small => rw [if_pos small, isZero_zero] at h; cases h
  · next counts => rw [negligible_add_zero]; exact Bool.eq_false_iff.2 counts

/-- A form that was read from a text and can be written out has a line. -/
theorem LinearForm.hasLine_of_read {text : String} {f : LinearForm α}
    (read : ofText? text = some f) (written : Succeeds f.plain) : f.HasLine := by
  unfold ofText? at read
  split at read
  · cases read
  · obtain ⟨-, ⟨b, settled_b⟩, unknowns⟩ := settled_of_ofShape? read
    cases zero : isZero f.b with
    | true =>
      rw [zero, Bool.and_true] at unknowns
      exact .inr unknowns
    | false =>
      have number := abs_le_self_of_plainTerm (plainTerm_of_plain written zero)
      rw [settled_b] at zero number
      left
      rw [settled_b]
      exact tolerance_le_abs number (counts_of_settled zero)

end Lines
end HalfPlane
