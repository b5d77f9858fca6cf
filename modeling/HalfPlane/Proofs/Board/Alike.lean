/-
Boards that nothing tells apart.

Two boards are `Alike` if they show the same and differ only in what never shows: the texts
they remember, where the counts of their generations and calls begin, and whether a pointer
that is not pressed drags. Every operation agrees on boards that are alike, gives the same
result and leaves them alike, so they go through any session alike (`Alike.session`).
-/
import HalfPlane.Proofs.Board.Backstage
import HalfPlane.Proofs.Board.Casting
import HalfPlane.Proofs.Debounce

namespace HalfPlane
variable {α β γ : Type}

/-- Whether a pointer drags matters only while it is pressed. -/
structure Pointer.Alike (p p' : Pointer α) : Prop where
  press : p'.press = p.press
  last : p'.last = p.last
  pinch : p'.pinch = p.pinch
  dragging : p.press.isSome = true → p'.dragging = p.dragging

/-- The same text, typed some generations later. -/
def Validation.later (v : Validation) (generations : Nat) : Validation :=
  { v with generation := v.generation + generations }

namespace Board

/-- The second board shows what the first one shows, and will, but that it says it has been
reset as long as the first one says nothing. The memories need not agree, and the second
board counts its generations, its calls and the time from another start. -/
structure Alike [Scalar α] (b b' : Board α) : Prop where
  content : b'.content = b.content
  said : b'.said = b.said.or (some .reset)
  register : ∃ memo, b'.register = { b.register with memo }
  honest : b.register.Honest ∧ b'.register.Honest
  pointer : b.pointer.Alike b'.pointer
  counts : ∃ generations tickets time, b'.generation = b.generation + generations ∧
    b'.validator = b.validator.later tickets time (·.later generations)

/-- The same result, on boards that are alike. -/
structure Agree [Scalar α] (o o' : Outcome α β) : Prop where
  result : o'.1 = o.1
  alike : Alike o.2 o'.2

section Operations
variable [Scalar α] {b b' : Board α}

theorem Agree.map {o o' : Outcome α β} (h : Agree o o') (f : β → γ) :
    Agree (o.1.map f, o.2) (o'.1.map f, o'.2) :=
  ⟨by rw [h.result], h.alike⟩

namespace Alike

theorem inequalities (h : Alike b b') : b'.inequalities = b.inequalities :=
  congrArg Scene.Content.inequalities h.content

theorem view (h : Alike b b') : b'.view = b.view := congrArg Scene.Content.view h.content

/-- What is alike differs in the backstage. -/
theorem backed (h : Alike b b') : b' = b.backedBy b'.backstage := by
  have said : b.said.or b'.said = b'.said := by
    rw [h.said]
    cases b.said <;> rfl
  obtain ⟨_, view, inequalities, vertices, checked, _, selected, hovered, _, _, _⟩ := b
  obtain ⟨_, view', inequalities', vertices', checked', _, selected', hovered', _, _, _⟩ := b'
  have content := h.content
  simp only [Board.content, Scene.Content.mk.injEq] at content
  obtain ⟨rfl, rfl, rfl, rfl, rfl, rfl⟩ := content
  simp only [backedBy, backstage]
  rw [said]

/-! ## What happens onstage -/

/-- Operations onstage agree. -/
theorem onstage (h : Alike b b') {operation : Board α → Outcome α β}
    (onstage : Onstage operation) : Agree (operation b) (operation b') := by
  have same : operation b' = (operation b).backedBy b'.backstage := by
    rw [← onstage, ← h.backed]
  obtain ⟨c, kept⟩ := onstage.keeps b
  rw [same]
  refine ⟨rfl, ?_⟩
  show Alike (operation b).2 ((operation b).2.backedBy b'.backstage)
  rw [kept]
  refine ⟨rfl, ?_, h.register, h.honest, h.pointer, h.counts⟩
  -- What the operation said, if anything, hides what the boards said before.
  show (c.said.or b.said).or b'.said = (c.said.or b.said).or (some .reset)
  rw [h.said, Option.or_assoc, Option.or_assoc]
  cases b.said <;> rfl

theorem say (h : Alike b b') (f : Feedback) : Agree (b.say f) (b'.say f) :=
  h.onstage (onstage_say f)

/-! ## A pointer and fingers -/

/-- The pointer moves in the same way, and nothing else happens. -/
theorem repoint (h : Alike b b') (p p' : Pointer α) (same : p.Alike p') :
    Alike { b with pointer := p } { b' with pointer := p' } :=
  { h with pointer := same }

theorem repan (h : Alike b b') (v : View α) (p p' : Pointer α) (same : p.Alike p') :
    Alike { b with pointer := p, view := v } { b' with pointer := p', view := v } :=
  { h with
    content := congrArg (fun c => { c with view := v }) h.content
    pointer := same }

/-- A pinch starts from the same zoom. -/
theorem pinch_eq (h : Alike b b') (distance : α) :
    some (Pinch.mk distance b'.view.zoom) = some ⟨distance, b.view.zoom⟩ := by
  rw [h.view]

theorem pointerDown (h : Alike b b') (s : Pixel α) : Alike (b.pointerDown s) (b'.pointerDown s) :=
  h.repoint _ _ ⟨rfl, rfl, h.pointer.pinch, fun _ => rfl⟩

variable [Hypot α]

theorem drag (h : Alike b b') (s : Pixel α) : Alike (b.drag s) (b'.drag s) := by
  unfold Board.drag
  rw [h.pointer.press, h.pointer.last]
  cases press : b.pointer.press with
  | none => exact h
  | some first =>
    cases b.pointer.last with
    | none => exact h
    | some last =>
      have dragging := h.pointer.dragging (by rw [press]; rfl)
      dsimp only
      rw [dragging, h.view]
      refine h.repan _ _ _ ?_
      exact ⟨h.pointer.press, rfl, h.pointer.pinch, fun _ => rfl⟩

theorem pointerMove (h : Alike b b') (s : Pixel α) :
    (b'.pointerMove s).1 = (b.pointerMove s).1 ∧
      Alike (b.pointerMove s).2 (b'.pointerMove s).2 := by
  obtain ⟨result, alike⟩ := (h.drag s).onstage (onstage_hover s)
  exact ⟨Except.ok.inj result, alike⟩

theorem pointerUp (h : Alike b b') (s : Pixel α) : Agree (b.pointerUp s) (b'.pointerUp s) := by
  -- Without a press it is no click, whatever is left of a drag.
  have wasClick : (b'.pointer.press.isSome && !b'.pointer.dragging) =
      (b.pointer.press.isSome && !b.pointer.dragging) := by
    rw [h.pointer.press]
    cases press : b.pointer.press with
    | none => rfl
    | some first => rw [h.pointer.dragging (by rw [press]; rfl)]
  have released := h.repoint
    { b.pointer with press := none, last := none, dragging := false }
    { b'.pointer with press := none, last := none, dragging := false }
    ⟨rfl, rfl, h.pointer.pinch, fun _ => rfl⟩
  unfold Board.pointerUp
  rw [wasClick]
  dsimp only
  split
  · exact released.onstage (onstage_click s)
  · exact ⟨rfl, released⟩

theorem touchStart (h : Alike b b') (touches : List (Pixel α)) :
    Alike (b.touchStart touches) (b'.touchStart touches) := by
  unfold Board.touchStart
  split
  · refine h.repoint _ _ ?_
    exact ⟨rfl, h.pointer.last, h.pinch_eq _, fun pressed => by cases pressed⟩
  · exact h.pointerDown _
  · exact h

theorem touchMove (h : Alike b b') (touches : List (Pixel α)) :
    Alike (b.touchMove touches) (b'.touchMove touches) := by
  unfold Board.touchMove
  rw [h.pointer.pinch]
  split
  · next pinch s t _ _ => exact (h.onstage (onstage_pinchTo pinch s t)).alike
  · exact (h.pointerMove _).2
  · exact h

theorem touchEnd (h : Alike b b') (touches : List (Pixel α)) :
    Agree (b.touchEnd touches) (b'.touchEnd touches) := by
  unfold Board.touchEnd
  rw [h.pointer.pinch]
  split
  · refine ⟨rfl, ?_⟩
    dsimp only
    split
    · exact h.repoint _ _ ⟨h.pointer.press, h.pointer.last, rfl, h.pointer.dragging⟩
    · exact h
  · rw [h.pointer.last]
    split
    · exact ⟨rfl, h⟩
    · exact h.pointerUp _

end Alike
end Operations

/-! ## Starting over and checking later -/

section Lifetime
variable [Scalar α] {b b' : Board α}

namespace Alike

theorem withValidator (h : Alike b b') {d d' : Debouncer Validation}
    {generations tickets time : Nat} (counted : b'.generation = b.generation + generations)
    (same : d' = d.later tickets time (·.later generations)) :
    Alike { b with validator := d } { b' with validator := d' } :=
  { h with counts := ⟨generations, tickets, time, counted, same⟩ }

theorem cleared (h : Alike b b') : Alike b.cleared b'.cleared := by
  obtain ⟨generations, tickets, time, counted, same⟩ := h.counts
  obtain ⟨memo, register⟩ := h.register
  refine
    { content := ?_
      said := h.said
      register := ⟨memo, ?_⟩
      honest := ⟨h.honest.1.restart, h.honest.2.restart⟩
      pointer := ⟨rfl, rfl, rfl, fun pressed => by cases pressed⟩
      counts := ⟨generations, tickets, time, ?_, ?_⟩ }
  · show Scene.Content.mk [] [] b'.view none none [] = ⟨[], [], b.view, none, none, []⟩
    rw [h.view]
  · show b'.register.restart = { b.register.restart with memo }
    rw [register]
    rfl
  · show b'.generation + 1 = b.generation + 1 + generations
    omega
  · show b'.validator.cancel = b.validator.cancel.later tickets time (·.later generations)
    rw [same, Debouncer.cancel_later]

theorem reset [Exact α] (h : Alike b b') : Agree b.reset b'.reset := by
  obtain ⟨result, alike⟩ := h.cleared.onstage onstage_resetView
  unfold Board.reset
  generalize b.cleared.resetView = o at result alike
  generalize b'.cleared.resetView = o' at result alike
  obtain ⟨r, c⟩ := o
  obtain ⟨r', c'⟩ := o'
  cases result
  cases r with
  | error e => exact ⟨rfl, alike⟩
  | ok _ => exact alike.say .reset

theorem validateLater (h : Alike b b') (text : String) :
    Alike (b.validateLater text) (b'.validateLater text) := by
  obtain ⟨generations, tickets, time, counted, same⟩ := h.counts
  have called := Debouncer.call_later b.validator tickets time (·.later generations)
    ⟨text, b.generation⟩
  rw [← same] at called
  refine h.withValidator counted (Eq.trans ?_ called)
  rw [counted]
  rfl

theorem close (h : Alike b b') : Alike b.close b'.close := by
  obtain ⟨generations, tickets, time, counted, same⟩ := h.counts
  have cancelled := Debouncer.cancel_later b.validator tickets time (·.later generations)
  rw [← same] at cancelled
  exact h.withValidator counted cancelled

/-- The generation a text was typed on is over on both boards, or on neither. -/
theorem delivered {generations : Nat} (counted : b'.generation = b.generation + generations)
    (v : Validation) :
    b'.delivered (v.later generations).text (v.later generations).generation =
      b.delivered v.text v.generation := by
  have current : ((v.later generations).generation : Int) = b'.generation ↔
      (v.generation : Int) = b.generation := by
    simp only [Validation.later, counted]
    omega
  simp only [Board.delivered, current]
  rfl

theorem advance (h : Alike b b') (wait : Nat) :
    (b'.advance wait).1 = (b.advance wait).1 ∧
      Alike (b.advance wait).2 (b'.advance wait).2 := by
  obtain ⟨generations, tickets, time, counted, same⟩ := h.counts
  have advanced := Debouncer.advance_later b.validator tickets time (·.later generations) wait
  rw [← same] at advanced
  constructor
  · show (b'.validator.advance wait).1.filterMap (fun v => b'.delivered v.text v.generation) =
      (b.validator.advance wait).1.filterMap fun v => b.delivered v.text v.generation
    rw [advanced, List.filterMap_map]
    exact congrArg (List.filterMap · _) (funext fun v => delivered counted v)
  · exact h.withValidator counted (congrArg Prod.snd advanced)

end Alike
end Lifetime

/-! ## Casting -/

section Casting
variable [Scalar α] {b b' : Board α}

namespace Alike

/-- Reading changes the memories only. -/
theorem afterReading (h : Alike b b') (text : String) :
    Alike (b.afterReading text) (b'.afterReading text) := by
  obtain ⟨memo, register⟩ := h.register
  obtain ⟨memo₁, read⟩ := b.register.read_memo text
  obtain ⟨memo₂, read'⟩ := b'.register.read_memo text
  refine
    { h with
      register := ⟨memo₂, ?_⟩
      honest := ⟨h.honest.1.read text, h.honest.2.read text⟩ }
  show (b'.register.read text).2 = { (b.register.read text).2 with memo := memo₂ }
  rw [read, read', register]

theorem append (h : Alike b b') (q : Inequality α) :
    Alike { b with inequalities := b.inequalities ++ [q] }
      { b' with inequalities := b'.inequalities ++ [q] } :=
  { h with
    content := congrArg (fun c => { c with inequalities := c.inequalities ++ [q] }) h.content }

variable [Exact α]

/-- The same label and the same colour go to a form. -/
theorem afterEntering (h : Alike b b') (text : String) (form : LinearForm α) :
    Alike (b.afterEntering text form) (b'.afterEntering text form) := by
  have reading := h.afterReading text
  obtain ⟨memo, register⟩ := reading.register
  refine
    { h with
      register := ⟨memo, ?_⟩
      honest := ⟨reading.honest.1.enter form, reading.honest.2.enter form⟩ }
  show ((b'.afterReading text).register.enter form).2 =
    { ((b.afterReading text).register.enter form).2 with memo }
  rw [register]
  rfl

theorem entry (h : Alike b b') (text : String) (form : LinearForm α) :
    ((b'.register.read text).2.enter form).1 = ((b.register.read text).2.enter form).1 := by
  obtain ⟨memo, register⟩ := (h.afterReading text).register
  show ((b'.afterReading text).register.enter form).1 =
    ((b.afterReading text).register.enter form).1
  rw [register]
  rfl

theorem add [Hypot α] (h : Alike b b') (text : String) : Agree (b.add text) (b'.add text) := by
  cases written : Text.allBlank text with
  | true =>
    rw [add_blank written, add_blank written]
    exact h.say .blankText
  | false =>
    have reading := h.afterReading text
    cases read : (LinearForm.ofText? text : Option (LinearForm α)) with
    | none =>
      rw [add_unreadable h.honest.1 written read, add_unreadable h.honest.2 written read]
      exact reading.say .unreadable
    | some form =>
      rw [add_read h.honest.1 written read, add_read h.honest.2 written read, h.inequalities,
        h.entry text form]
      split
      · exact ⟨rfl, reading⟩
      · exact reading.say .duplicate
      · have entering := h.afterEntering text form
        split
        · exact ⟨rfl, entering⟩
        · next q _ =>
          have added := (entering.append q).onstage (onstage_refreshAndSay .added)
          have same : (b'.afterEntering text form).inequalities = b.inequalities := h.inequalities
          rw [same] at added
          exact added

end Alike
end Casting

/-! ## Sessions -/

section Sessions
variable [Coordinate α]

/-- An action gives the same result on boards that are alike, and leaves them alike. -/
theorem Alike.perform {b b' : Board α} (h : Alike b b') {a : Action α}
    (own : ∀ text generation, a ≠ .deliver text generation) :
    Agree (b.perform a) (b'.perform a) := by
  by_cases front : a.onstage = true
  · exact h.onstage (onstage_perform front)
  · cases a with
    | remove | clearChoice | chooseRegion | select | submit | check | click | wheel | pan | resize
    | resetView => exact absurd rfl front
    | add text => exact (h.add text).map _
    | pointerDown s => exact ⟨rfl, h.pointerDown s⟩
    | pointerMove s =>
      obtain ⟨hovered, alike⟩ := h.pointerMove s
      refine ⟨?_, alike⟩
      show Except.ok (Answer.hovered (b'.pointerMove s).1) = .ok (.hovered (b.pointerMove s).1)
      rw [hovered]
    | pointerUp s => exact (h.pointerUp s).map _
    | touchStart touches => exact ⟨rfl, h.touchStart touches⟩
    | touchMove touches => exact ⟨rfl, h.touchMove touches⟩
    | touchEnd touches => exact (h.touchEnd touches).map _
    | reset => exact h.reset.map _
    | validateLater text => exact ⟨rfl, h.validateLater text⟩
    | deliver text generation => exact absurd rfl (own text generation)
    | advance wait =>
      obtain ⟨texts, alike⟩ := h.advance wait
      refine ⟨?_, alike⟩
      show Except.ok (Answer.checked (b'.advance wait).1) = .ok (.checked (b.advance wait).1)
      rw [texts]
    | close => exact ⟨rfl, h.close⟩

/-- What the actions of a session give, one after the other. -/
def results (b : Board α) : List (Action α) → List (Except Fault (Answer α))
  | [] => []
  | a :: actions => (b.perform a).1 :: (b.after a).results actions

/-- Boards that are alike stay so over a session, and give the same results. -/
theorem Alike.session :
    ∀ {b b' : Board α} {actions : List (Action α)}, Alike b b' →
      (∀ text generation, .deliver text generation ∉ actions) →
      b'.results actions = b.results actions ∧ Alike (b.afterAll actions) (b'.afterAll actions)
  | b, b', [], h, _ => ⟨rfl, h⟩
  | b, b', a :: actions, h, own => by
    simp only [List.mem_cons, not_or] at own
    obtain ⟨result, alike⟩ :=
      h.perform fun text generation same => (own text generation).1 same.symm
    obtain ⟨results, alike⟩ := alike.session fun text generation => (own text generation).2
    refine ⟨?_, alike⟩
    rw [Board.results, Board.results, result]
    exact congrArg _ results

end Sessions
end Board
end HalfPlane
