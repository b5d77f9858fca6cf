/-
What a session does backstage as long as it only casts, names, points and looks.

Such actions read texts and use up labels and colours, and pointers come and go. But what the
register falls back on stays the same, and so do the generation and the texts that wait
(`Steady.after`). Only starting over, typing, waiting and closing are `unsteady`.
-/
import HalfPlane.Proofs.Board.Backstage
import HalfPlane.Proofs.Register

namespace HalfPlane.Board
variable {α β : Type}

/-- Nothing happened backstage but reading, entering and pointing. -/
structure Steady (b b' : Board α) : Prop where
  register : ∃ memo, b'.register.restart = { b.register.restart with memo }
  generation : b'.generation = b.generation
  validator : b'.validator = b.validator

namespace Steady
variable {b b' : Board α}

theorem refl (b : Board α) : Steady b b := ⟨⟨_, rfl⟩, rfl, rfl⟩

theorem of_same {c : Board α} (h : Steady b b') (register : c.register = b'.register)
    (generation : c.generation = b'.generation) (validator : c.validator = b'.validator) :
    Steady b c :=
  ⟨register ▸ h.register, generation.trans h.generation, validator.trans h.validator⟩

theorem onstage (h : Steady b b') {operation : Board α → Outcome α β}
    (onstage : Onstage operation) : Steady b (operation b').2 := by
  obtain ⟨c, kept⟩ := onstage.keeps b'
  rw [kept]
  exact h.of_same rfl rfl rfl

theorem withRegister (h : Steady b b') {r : Register α}
    (same : ∃ memo, r.restart = { b'.register.restart with memo }) :
    Steady b { b' with register := r } := by
  obtain ⟨memo, same⟩ := same
  obtain ⟨memo', register⟩ := h.register
  refine ⟨⟨memo, ?_⟩, h.generation, h.validator⟩
  rw [same, register]

section Operations
variable [Coordinate α]

theorem pointerMove (h : Steady b b') (s : Pixel α) : Steady b (b'.pointerMove s).2 := by
  have drag : Steady b (b'.drag s) := by
    unfold Board.drag
    split <;> exact h.of_same rfl rfl rfl
  exact drag.onstage (onstage_hover s)

theorem pointerUp (h : Steady b b') (s : Pixel α) : Steady b (b'.pointerUp s).2 := by
  have released : Steady b
      { b' with pointer := { b'.pointer with press := none, last := none, dragging := false } } :=
    h.of_same rfl rfl rfl
  unfold Board.pointerUp
  dsimp only
  split
  · exact released.onstage (onstage_click s)
  · exact released

theorem touchStart (h : Steady b b') (touches : List (Pixel α)) :
    Steady b (b'.touchStart touches) := by
  unfold Board.touchStart
  split
  · exact h.of_same rfl rfl rfl
  · exact h.of_same rfl rfl rfl
  · exact h

theorem touchMove (h : Steady b b') (touches : List (Pixel α)) :
    Steady b (b'.touchMove touches) := by
  unfold Board.touchMove
  split
  · exact h.onstage (onstage_pinchTo _ _ _)
  · exact h.pointerMove _
  · exact h

theorem touchEnd (h : Steady b b') (touches : List (Pixel α)) :
    Steady b (b'.touchEnd touches).2 := by
  unfold Board.touchEnd
  split
  · dsimp only
    split
    · exact h.of_same rfl rfl rfl
    · exact h
  · split
    · exact h
    · exact h.pointerUp _

theorem add (h : Steady b b') (text : String) : Steady b (b'.add text).2 := by
  have reading : Steady b { b' with register := (b'.register.read text).2 } := by
    obtain ⟨memo, read⟩ := b'.register.read_memo text
    exact h.withRegister ⟨memo, by rw [read]; rfl⟩
  unfold Board.add
  split
  · exact h.of_same rfl rfl rfl
  · dsimp only
    split
    · exact reading.of_same rfl rfl rfl
    · next form _ =>
      have entering : Steady b
          { b' with register := ((b'.register.read text).2.enter form).2 } :=
        reading.withRegister ⟨_, Register.restart_enter _ _⟩
      split
      · exact reading
      · exact reading.of_same rfl rfl rfl
      · split
        · exact entering
        · next q _ =>
          have added : Steady b
              { b' with
                register := ((b'.register.read text).2.enter form).2
                inequalities := b'.inequalities ++ [q] } := entering.of_same rfl rfl rfl
          exact added.onstage (onstage_refreshAndSay .added)

/-- A board that starts over is cleared, and then only its window changes. -/
theorem reset (b : Board α) : Steady b.cleared b.reset.2 := by
  have viewed := (refl b.cleared).onstage onstage_resetView
  unfold Board.reset
  split
  · next e c same => rw [same] at viewed; exact viewed
  · next c same => rw [same] at viewed; exact viewed.of_same rfl rfl rfl

end Operations
end Steady

/-- The actions that count the generation or the calls on, or move the clock. -/
def Action.unsteady : Action α → Bool
  | .reset | .validateLater _ | .advance _ | .close => true
  | _ => false

theorem Steady.after [Coordinate α] {b b' : Board α} (h : Steady b b') {a : Action α}
    (steady : a.unsteady = false) : Steady b (b'.after a) := by
  by_cases front : a.onstage = true
  · exact h.onstage (onstage_perform front)
  · cases a with
    | remove | clearChoice | chooseRegion | select | submit | check | click | wheel | pan | resize
    | resetView => exact absurd rfl front
    | add text => exact h.add text
    | pointerDown s => exact h.of_same rfl rfl rfl
    | pointerMove s => exact h.pointerMove s
    | pointerUp s => exact h.pointerUp s
    | touchStart touches => exact h.touchStart touches
    | touchMove touches => exact h.touchMove touches
    | touchEnd touches => exact h.touchEnd touches
    | deliver text generation => exact h
    | reset | validateLater | advance | close => cases steady

end HalfPlane.Board
