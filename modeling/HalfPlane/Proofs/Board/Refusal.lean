/-
Which actions are refused, and that a refused action leaves the board as it was.

`Refuses` lists the refusals and their causes. An action that is not on the list, other
than casting, gives a result: in a board as sessions have it nothing is divided by zero
and every reference leads somewhere. Casting is apart, since it can fail on a form that
cannot be compared or written out, and then its label is used up.
-/
import HalfPlane.Proofs.Board.Pointing

namespace HalfPlane
variable {α : Type}

theorem Side.ofName_error {name : Option String} (a : name ≠ some "regionA")
    (b : name ≠ some "regionB") : Side.ofName name = .error (.noSuchSide name) := by
  cases name with
  | none => rfl
  | some s =>
    have notA : ¬ (Side.regionA.name = s) := fun h => a (congrArg some h.symm)
    have notB : ¬ (Side.regionB.name = s) := fun h => b (congrArg some h.symm)
    simp only [Side.ofName, Side.ofName?, List.find?, notA, notB, decide_false]

theorem Side.ofName_ok {name : Option String}
    (h : ¬ (name ≠ some "regionA" ∧ name ≠ some "regionB")) :
    ∃ side, Side.ofName name = .ok side := by
  by_cases a : name = some "regionA"
  · exact ⟨.regionA, by rw [a]; rfl⟩
  · by_cases b : name = some "regionB"
    · exact ⟨.regionB, by rw [b]; rfl⟩
    · exact absurd ⟨a, b⟩ h

namespace Board

/-- No inequality on the board has a label. -/
def Unknown (b : Board α) (label : String) : Prop := ∀ q ∈ b.inequalities, q.label ≠ label

theorem find?_unknown {b : Board α} {label : String} (h : b.Unknown label) :
    b.find? label = none :=
  List.find?_eq_none.2 fun q hq => by simpa using h q hq

theorem find?_known {b : Board α} {label : String} (h : ¬ b.Unknown label) :
    ∃ q ∈ b.inequalities, q.label = label ∧ b.find? label = some q := by
  cases hq : b.find? label with
  | none => exact absurd (fun q hm => by simpa using List.find?_eq_none.1 hq q hm) h
  | some q => exact ⟨q, mem_of_find? hq, by simpa using List.find?_some hq, rfl⟩

variable [Coordinate α] {b : Board α}

/-- The refusals of actions other than casting, with their causes. -/
inductive Refuses (b : Board α) : Action α → Fault → Prop where
  | remove {label : String} : b.Unknown label → Refuses b (.remove label) (.unknownLabel label)
  | clearChoice {label : String} : b.Unknown label →
      Refuses b (.clearChoice label) (.unknownLabel label)
  | chooseUnknown {label : String} {side : Option String} : b.Unknown label →
      Refuses b (.chooseRegion label side) (.unknownLabel label)
  | chooseEquation {q : Inequality α} {side : Option String} : q ∈ b.inequalities →
      q.form.operator = .eq → Refuses b (.chooseRegion q.label side) (.noRegion q.label)
  | chooseNoSide {q : Inequality α} {side : Option String} : q ∈ b.inequalities →
      q.form.operator ≠ .eq → side ≠ some "regionA" ∧ side ≠ some "regionB" →
      Refuses b (.chooseRegion q.label side) (.noSuchSide side)
  | select {index : Int} : ¬ (0 ≤ index ∧ index < b.vertices.length) →
      Refuses b (.select index) (.noSuchVertex index)
  | resize {width height : α} : width ≤ 0.0 ∨ height ≤ 0.0 →
      Refuses b (.resize width height) (.emptyViewport (shortestText width) (shortestText height))

/-! ## The window and starting over -/

theorem resize_empty {width height : α} (h : width ≤ 0.0 ∨ height ≤ 0.0) :
    b.resize width height =
      (.error (.emptyViewport (shortestText width) (shortestText height)), b) := by
  simp only [resize, View.centred_empty h]

section Window
variable [LawfulCoordinate α]

theorem resize_completes {width height : α} (h : ¬ (width ≤ 0.0 ∨ height ≤ 0.0)) :
    Completes b (b.resize width height) := by
  obtain ⟨v, hv, usual⟩ := View.centred_usual h b.view.zoom
  simp only [resize, hv]
  exact ⟨.ok _, .idle, id, fun _ => usual⟩

theorem resetView_completes (h : b.view.Usual) : Completes b b.resetView := by
  obtain ⟨v, hv, usual⟩ := View.centred_usual h.area View.standardZoom
  simp only [resetView, hv]
  exact ⟨.ok _, .idle, id, fun _ => usual⟩

theorem reset_completes (h : b.view.Usual) : Completes b b.reset := by
  have area : ¬ (b.cleared.view.width ≤ 0.0 ∨ b.cleared.view.height ≤ 0.0) := h.area
  obtain ⟨v, hv, usual⟩ := View.centred_usual area View.standardZoom
  simp only [reset, resetView, hv]
  exact ⟨.ok _, .clear, fun honest => honest.restart, fun _ => usual⟩

end Window

/-! ## Actions -/

/-- A refused action leaves the board as it was. -/
theorem perform_refused (sound : b.Sound) {a : Action α} {e : Fault} (h : b.Refuses a e) :
    b.perform a = (.error e, b) := by
  cases h with
  | remove unknown =>
    simp only [perform, answered, remove_unknown (find?_unknown unknown)]; rfl
  | clearChoice unknown =>
    simp only [perform, answered, clearChoice_unknown (find?_unknown unknown)]; rfl
  | chooseUnknown unknown =>
    simp only [perform, answered, chooseRegion_unknown (find?_unknown unknown)]; rfl
  | chooseEquation hq equation =>
    simp only [perform, answered, chooseRegion_equation (sound.find?_of_mem hq) equation]; rfl
  | chooseNoSide hq region noSide =>
    simp only [perform, answered, chooseRegion_noSide (sound.find?_of_mem hq) region
      (Side.ofName_error noSide.1 noSide.2)]; rfl
  | select outside => simp only [perform, answered, select_outside outside]; rfl
  | resize empty => simp only [perform, silent, resize_empty empty]; rfl

/-- Any other action gives a result. -/
theorem perform_completes [LawfulCoordinate α] (sound : b.Sound) {a : Action α}
    (h : ∀ e, ¬ b.Refuses a e) (notCasting : ∀ text, a ≠ .add text) :
    Completes b (b.perform a) := by
  cases a with
  | add text => exact absurd rfl (notCasting text)
  | remove label =>
    obtain ⟨q, -, -, found⟩ := find?_known fun unknown => h _ (.remove unknown)
    exact (remove_completes sound found).map _
  | clearChoice label =>
    obtain ⟨q, -, -, found⟩ := find?_known fun unknown => h _ (.clearChoice unknown)
    exact (clearChoice_completes sound found).map _
  | chooseRegion label side =>
    obtain ⟨q, hq, rfl, found⟩ := find?_known fun unknown => h _ (.chooseUnknown unknown)
    have region : q.form.operator ≠ .eq := fun equation => h _ (.chooseEquation hq equation)
    obtain ⟨s, named⟩ := Side.ofName_ok fun noSide => h _ (.chooseNoSide hq region noSide)
    exact (chooseRegion_completes sound found region named).map _
  | select index =>
    have inside : 0 ≤ index ∧ index < b.vertices.length := by
      by_cases inside : 0 ≤ index ∧ index < b.vertices.length
      · exact inside
      · exact absurd (.select inside) (h _)
    exact (select_completes inside).map _
  | submit x y => exact (submit_completes x y).map _
  | check p => exact (check_completes p).map _
  | click s => exact (click_completes sound s).map _
  | pointerDown s => exact ⟨.ok _, .idle, id, id⟩
  | pointerMove s => exact ⟨.ok _, pointerMove_change s⟩
  | pointerUp s => exact (pointerUp_completes sound s).map _
  | wheel delta s => exact ⟨.ok _, wheel_change delta s⟩
  | touchStart touches => exact ⟨.ok _, touchStart_change touches⟩
  | touchMove touches => exact ⟨.ok _, touchMove_change touches⟩
  | touchEnd touches => exact (touchEnd_completes sound touches).map _
  | pan dx dy => exact ⟨.ok _, .idle, id, fun usual => usual.pan dx dy⟩
  | resize width height =>
    exact (resize_completes fun empty => h _ (.resize empty)).map _
  | resetView => exact (resetView_completes sound.usual).map _
  | reset => exact (reset_completes sound.usual).map _
  | validateLater | advance | close => exact ⟨.ok _, .idle, id, id⟩
  | deliver => exact ⟨.ok _, .refl⟩

variable [LawfulCoordinate α]

theorem perform_error_iff (sound : b.Sound) {a : Action α} (notCasting : ∀ text, a ≠ .add text)
    (e : Fault) : (b.perform a).1 = .error e ↔ b.Refuses a e := by
  constructor
  · intro failed
    by_cases refused : ∃ e, b.Refuses a e
    · obtain ⟨e', refused⟩ := refused
      rw [perform_refused sound refused] at failed
      cases failed
      exact refused
    · obtain ⟨r, hr⟩ :=
        (perform_completes sound (fun e h => refused ⟨e, h⟩) notCasting).succeeds
      rw [hr] at failed
      cases failed
  · intro refused
    rw [perform_refused sound refused]

/-- What any action does to a board, refused or not. -/
theorem after_change (sound : b.Sound) (a : Action α) : Change b (b.after a) := by
  by_cases casting : ∃ text, a = .add text
  · obtain ⟨text, rfl⟩ := casting
    exact add_change sound text
  · by_cases refused : ∃ e, b.Refuses a e
    · obtain ⟨e, refused⟩ := refused
      unfold after
      rw [perform_refused sound refused]
      exact .refl
    · exact (perform_completes sound (fun e h => refused ⟨e, h⟩)
        (fun text h => casting ⟨text, h⟩)).change

theorem Sound.after (h : b.Sound) (a : Action α) : (b.after a).Sound := h.change (after_change h a)

end Board
end HalfPlane
