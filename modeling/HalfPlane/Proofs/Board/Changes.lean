/-
What each operation does to a board.

For an operation that is refused there is an equation: the refusal, and the board as it
was. For one that is not there is `Completes`: it gives a result, and what it does to the
board is a `Change`, so the invariant `Sound` carries over. Both need the invariant, since
a claim on a form without a line would fail halfway.
-/
import HalfPlane.Board.Action
import HalfPlane.Proofs.Board.Core
import HalfPlane.Proofs.Geometry.Corners
import HalfPlane.Proofs.Register
import HalfPlane.Proofs.View

namespace HalfPlane
variable {α : Type}

theorem mem_of_closest? [Scalar α] {β : Type} {radius : α} {candidates : List (α × β)}
    {c : α × β} (h : closest? radius candidates = some c) : c ∈ candidates := by
  have found : ∀ (l : List (α × β)) (best : Option (α × β)),
      l.foldl (fun best c =>
        if c.1 ≤ radius && best.all (fun b => decide (c.1 < b.1)) then some c else best) best
          = some c → best = some c ∨ c ∈ l := by
    intro l
    induction l with
    | nil => exact fun best h => .inl h
    | cons d l ih =>
      intro best h
      rcases ih _ h with h | h
      · dsimp only at h
        split at h
        · cases h; exact .inr (by simp)
        · exact .inl h
      · exact .inr (by simp [h])
  exact (found candidates none h).resolve_left (by simp)

theorem Vertex.lt_of_at? [Scalar α] [Hypot α] {vertices : List (Vertex α)} {v : View α}
    {s : Pixel α} {radius : α} {i : Nat} (h : Vertex.at? vertices v s radius = some i) :
    ∃ w, vertices[i]? = some w := by
  unfold Vertex.at? at h
  rw [Option.map_eq_some_iff] at h
  obtain ⟨⟨d, j⟩, h, rfl⟩ := h
  obtain ⟨⟨w, k⟩, hw, same⟩ := List.mem_map.1 (mem_of_closest? h)
  cases same
  exact ⟨w, List.mem_zipIdx_iff_getElem?.1 hw⟩

namespace Board

/-! ## Changes -/

def core (b : Board α) : Core α :=
  ⟨b.register.given, b.inequalities, b.vertices, b.selected, b.hovered⟩

/-- What holds of a board at all times. -/
structure Sound [Coordinate α] (b : Board α) : Prop where
  coherent : b.core.Coherent
  honest : b.register.Honest
  usual : b.view.Usual

/-- What any operation may do to a board. -/
structure Change [Coordinate α] (b b' : Board α) : Prop where
  step : Core.Step b.core b'.core
  register : b.register.Honest → b'.register.Honest
  view : b.view.Usual → b'.view.Usual

/-- An operation on a board gives a result. -/
structure Completes [Coordinate α] {β : Type} (b : Board α) (o : Outcome α β) : Prop where
  succeeds : Succeeds o.1
  change : Change b o.2

theorem refreshAndSay_eq [Scalar α] [Hypot α] {b : Board α} (lines : AllHaveLines b.inequalities)
    (f : Feedback) :
    ∃ corners, Corner.ofInequalities b.inequalities = .ok corners ∧
      b.refreshAndSay f =
        (.ok f,
          { b with
            vertices := refreshedVertices b.vertices corners
            selected := selectionOf b.vertices b.selected corners
            said := some f }) := by
  obtain ⟨corners, h⟩ := Corner.ofInequalities_succeeds lines
  refine ⟨corners, h, ?_⟩
  simp only [refreshAndSay, refreshed, h]
  rfl

section Framework
variable [Coordinate α] {b b' : Board α}

theorem Change.refl : Change b b := ⟨.idle, id, id⟩

/-- A change that follows one of the window, the pointer or the memory alone. -/
theorem Change.after_same {b'' : Board α} (core : b'.core = b.core)
    (register : b.register.Honest → b'.register.Honest) (view : b.view.Usual → b'.view.Usual)
    (h : Change b' b'') : Change b b'' :=
  ⟨core ▸ h.step, h.register ∘ register, h.view ∘ view⟩

theorem Sound.change (h : b.Sound) (c : Change b b') : b'.Sound :=
  ⟨h.coherent.step c.step, c.register h.honest, c.view h.usual⟩

theorem Sound.lines (h : b.Sound) : AllHaveLines b.inequalities := h.coherent.lines

theorem Change.completes (c : Change b b') (f : Feedback) : Completes b (b'.say f) :=
  ⟨.ok f, c.step, c.register, c.view⟩

theorem Completes.of_recast (h : b.Sound) (cast : Core.Recast b.core b'.core)
    (register : b.register.Honest → b'.register.Honest) (view : b'.view = b.view) (f : Feedback) :
    Completes b (b'.refreshAndSay f) := by
  obtain ⟨corners, hc, eq⟩ := refreshAndSay_eq (h.coherent.toWellCast.recast cast).lines f
  rw [eq]
  exact ⟨.ok f, .recast cast hc, register, fun usual => view ▸ usual⟩

end Framework

/-! ## Casting and claiming -/

section Casting
variable {b : Board α} {label : String}

theorem mem_of_find? {q : Inequality α} (h : b.find? label = some q) : q ∈ b.inequalities :=
  List.mem_of_find?_eq_some h

theorem get_unknown (h : b.find? label = none) : b.get label = .error (.unknownLabel label) := by
  simp only [get, h]

theorem get_found {q : Inequality α} (h : b.find? label = some q) : b.get label = .ok q := by
  simp only [get, h]

variable [Coordinate α]

theorem remove_unknown (h : b.find? label = none) :
    b.remove label = (.error (.unknownLabel label), b) := by
  simp only [remove, get_unknown h]

theorem remove_completes (sound : b.Sound) {q : Inequality α} (h : b.find? label = some q) :
    Completes b (b.remove label) := by
  have cast : Core.Recast b.core
      ({ b with
          inequalities := b.inequalities.eraseP fun q => q.label == label
          hovered := if b.hovered = some label then none else b.hovered } : Board α).core :=
    .remove label
  simp only [remove, get_found h]
  exact .of_recast sound cast id rfl _

theorem claim_completes (sound : b.Sound) {q : Inequality α} (h : b.find? label = some q)
    (region : q.form.operator ≠ .eq) {solution : Solution} (side : solution ≠ .solved none)
    (f : Feedback) :
    Completes b
      ({ b with inequalities := claimed label solution b.inequalities }.refreshAndSay f) := by
  have cast : Core.Recast b.core
      ({ b with inequalities := claimed label solution b.inequalities } : Board α).core :=
    .claim h region side
  exact .of_recast sound cast id rfl f

theorem clearChoice_unknown (h : b.find? label = none) :
    b.clearChoice label = (.error (.unknownLabel label), b) := by
  simp only [clearChoice, get_unknown h]

theorem clearChoice_completes (sound : b.Sound) {q : Inequality α} (h : b.find? label = some q) :
    Completes b (b.clearChoice label) := by
  simp only [clearChoice, get_found h]
  split
  · exact Change.refl.completes _
  · next region => exact claim_completes sound h region (by simp) _

theorem chooseRegion_unknown (h : b.find? label = none) (side : Option String) :
    b.chooseRegion label side = (.error (.unknownLabel label), b) := by
  simp only [chooseRegion, get_unknown h]

theorem chooseRegion_equation {q : Inequality α} (h : b.find? label = some q)
    (equation : q.form.operator = .eq) (side : Option String) :
    b.chooseRegion label side = (.error (.noRegion label), b) := by
  simp only [chooseRegion, get_found h, equation, if_true]

theorem chooseRegion_noSide {q : Inequality α} (h : b.find? label = some q)
    (region : q.form.operator ≠ .eq) {name : Option String} {e : Fault}
    (noSide : Side.ofName name = .error e) : b.chooseRegion label name = (.error e, b) := by
  simp only [chooseRegion, get_found h, region, if_false, noSide]

theorem chooseRegion_completes (sound : b.Sound) {q : Inequality α} (h : b.find? label = some q)
    (region : q.form.operator ≠ .eq) {name : Option String} {side : Side}
    (named : Side.ofName name = .ok side) : Completes b (b.chooseRegion label name) := by
  obtain ⟨right, hr⟩ := (sound.lines q (mem_of_find? h)).sideSatisfies side
  simp only [chooseRegion, get_found h, region, if_false, named, hr]
  exact claim_completes sound h region (by simp) _

/-- Reading a text leaves all but the memory as it was. -/
theorem core_read (text : String) :
    ({ b with register := (b.register.read text).2 } : Board α).core = b.core := by
  simp only [core, Register.given_read]

/-- A form that cannot be written out has its label used up. -/
theorem enter_change (form : LinearForm α) :
    Change b { b with register := (b.register.enter form).2 } := by
  refine ⟨?_, fun honest => honest.enter form, id⟩
  simp only [core, Register.given_enter]
  exact .label _

theorem enter_recast [LawfulCoordinate α] {text : String} {form : LinearForm α} {q : Inequality α}
    (read : LinearForm.ofText? text = some form) (entered : (b.register.enter form).1 = .ok q) :
    Core.Recast b.core
      ({ b with
          register := (b.register.enter form).2
          inequalities := b.inequalities ++ [q] } : Board α).core := by
  obtain ⟨sameForm, label, start, written⟩ := Register.enter_ok entered
  have line : q.form.HasLine := by
    rw [sameForm]
    exact LinearForm.hasLine_of_read read ⟨_, written⟩
  simp only [core, Register.given_enter, ← label]
  exact .add line (by rw [start, sameForm])

/-- Casting may fail, with the label used up. -/
theorem add_change [LawfulCoordinate α] (sound : b.Sound) (text : String) :
    Change b (b.add text).2 := by
  unfold add
  split
  · exact (Change.refl.completes .blankText).change
  · have same := b.core_read text
    have honest := sound.honest.read text
    have read := sound.honest.read_form text
    dsimp only
    refine .after_same same (fun _ => honest) id ?_
    generalize (b.register.read text).2 = register at same honest
    have soundRead : Sound { b with register } := ⟨same ▸ sound.coherent, honest, sound.usual⟩
    rw [read]
    split
    · exact (Change.refl.completes .unreadable).change
    · next form reads =>
      split
      · exact .refl
      · exact (Change.refl.completes .duplicate).change
      · split
        · exact enter_change form
        · next q entered =>
          have cast := enter_recast (b := { b with register }) reads entered
          exact (Completes.of_recast soundRead cast (fun h => h.enter form) rfl .added).change

end Casting

/-! ## Selecting, naming and checking -/

section Naming
variable {b : Board α}

theorem select_outside {index : Int} (h : ¬ (0 ≤ index ∧ index < b.vertices.length)) :
    b.select index = (.error (.noSuchVertex index), b) := by
  have none : (if 0 ≤ index then b.vertices[index.toNat]? else none) = none := by
    split
    · rw [List.getElem?_eq_none_iff]; omega
    · rfl
  simp only [select, none]

variable [Coordinate α]

theorem deselect_change {i : Nat} {v : Vertex α} (hv : b.vertices[i]? = some v)
    (why : b.selected = some i ∨ v.status = .active) : Change b (b.deselect i v) := by
  have marking := Marking.release hv why
  unfold deselect
  split
  · next active =>
    rw [if_pos active] at marking
    exact ⟨.mark marking, id, id⟩
  · next idle =>
    rw [if_neg idle] at marking
    exact ⟨.mark marking, id, id⟩

theorem select_completes {index : Int} (h : 0 ≤ index ∧ index < b.vertices.length) :
    Completes b (b.select index) := by
  obtain ⟨v, hv⟩ : ∃ v, b.vertices[index.toNat]? = some v :=
    ⟨_, List.getElem?_eq_getElem (by omega)⟩
  have found : (if 0 ≤ index then b.vertices[index.toNat]? else none) = some v := by
    rw [if_pos h.1, hv]
  simp only [select, found]
  split
  · next why => exact (deselect_change hv why).completes _
  · split
    · next solved => exact ⟨.ok _, .mark (.present hv solved), id, id⟩
    · exact ⟨.ok _, .mark (.activate hv), id, id⟩

theorem submit_completes (xText yText : String) : Completes b (b.submit xText yText) := by
  unfold submit
  split
  · next i v hi hv =>
    split
    · exact Change.refl.completes _
    · split
      · exact Change.refl.completes _
      · split
        · dsimp only
          split
          · exact ⟨.ok _, .mark (.solve hi), id, id⟩
          · split
            · exact ⟨.ok _, .mark (.grade hi), id, id⟩
            · exact Change.refl.completes _
        · exact Change.refl.completes _
  · exact Change.refl.completes _

theorem check_completes (p : Point α) : Completes b (b.check p) := by
  unfold check
  dsimp only
  split <;> exact ⟨.ok _, .idle, id, id⟩

end Naming
end Board
end HalfPlane
