/-
Starting a board over.

A board that starts over is no new one: it remembers the texts it has read, counts its
generations and calls on, and a drag may still be under way. But it falls back on the labels,
colours and delay it was made with (`Rewinds`), and then it is like a new board in its window
(`Rewinds.alike`).
-/
import HalfPlane.Proofs.Board.Alike
import HalfPlane.Proofs.Board.Reachable
import HalfPlane.Proofs.Board.Steady

namespace HalfPlane
variable {α : Type}

namespace Board

/-! ## What a board falls back on -/

/-- Rewound, the labels and colours of a board are those of another one, and it waits as long
before it checks a text. -/
structure Rewinds (b₀ b : Board α) : Prop where
  register : ∃ memo, b.register.restart = { b₀.register with memo }
  delay : b.validator.delay = b₀.validator.delay
  tidy : b.validator.Tidy

namespace Rewinds
variable {b₀ b b' : Board α}

theorem of_steady (h : Rewinds b₀ b) (steady : Steady b b') : Rewinds b₀ b' := by
  obtain ⟨memo, same⟩ := steady.register
  obtain ⟨memo₀, register⟩ := h.register
  refine ⟨⟨memo, ?_⟩, steady.validator ▸ h.delay, steady.validator ▸ h.tidy⟩
  rw [same, register]

section Operations
variable [Coordinate α]

theorem reset (h : Rewinds b₀ b) : Rewinds b₀ b.reset.2 := by
  have delay : b.validator.cancel.delay = b.validator.delay := by rw [h.tidy.cancel_eq]
  have cleared : Rewinds b₀ b.cleared := ⟨h.register, delay.trans h.delay, h.tidy.cancel⟩
  exact cleared.of_steady (Steady.reset b)

/-- No action changes what a board falls back on. -/
theorem after (h : Rewinds b₀ b) (a : Action α) : Rewinds b₀ (b.after a) := by
  cases steady : a.unsteady with
  | false => exact h.of_steady ((Steady.refl b).after steady)
  | true =>
    cases a with
    | add | remove | clearChoice | chooseRegion | select | submit | check | click | pointerDown
    | pointerMove | pointerUp | wheel | touchStart | touchMove | touchEnd | pan | resize | resetView
    | deliver => cases steady
    | reset => exact h.reset
    | validateLater text =>
      have delay : (b.validateLater text).validator.delay = b.validator.delay := by
        rw [validateLater, h.tidy.call_eq]
      exact ⟨h.register, delay.trans h.delay, h.tidy.call _⟩
    | advance time =>
      exact ⟨h.register, (Debouncer.delay_advance _ time).trans h.delay, h.tidy.advance time⟩
    | close =>
      have delay : b.close.validator.delay = b.validator.delay := by
        rw [close, h.tidy.cancel_eq]
      exact ⟨h.register, delay.trans h.delay, h.tidy.cancel⟩

theorem afterAll {b : Board α} (h : Rewinds b₀ b) :
    ∀ actions : List (Action α), Rewinds b₀ (b.afterAll actions)
  | [] => h
  | a :: actions => (h.after a).afterAll actions

/-- A new board has nothing to rewind. -/
theorem of_make {width height zoom : α} {palette : List String} {delay : Int}
    (made : Board.make width height zoom palette delay = .ok b₀) : Rewinds b₀ b₀ := by
  obtain ⟨register, hr, made⟩ := bind_ok_iff.1 made
  obtain ⟨view, -, made⟩ := bind_ok_iff.1 made
  obtain ⟨validator, hv, made⟩ := bind_ok_iff.1 made
  cases made
  exact ⟨⟨register.memo, Register.restart_of_ofPalette hr⟩, rfl, .of_make hv⟩

end Operations
end Rewinds

/-! ## A board that starts over -/

/-- A board that starts over is like a new one in the same window. -/
theorem Rewinds.alike [Coordinate α] [LawfulCoordinate α] {width height zoom : α}
    {palette : List String} {delay : Int} {b₀ b : Board α}
    (made : Board.make width height zoom palette delay = .ok b₀) (h : Rewinds b₀ b)
    (sound : b.Sound) :
    ∃ fresh, Board.make b.view.width b.view.height View.standardZoom palette delay = .ok fresh ∧
      b.reset.1 = .ok .reset ∧ Alike fresh b.reset.2 := by
  obtain ⟨register, hr, made⟩ := bind_ok_iff.1 made
  obtain ⟨_, -, made⟩ := bind_ok_iff.1 made
  obtain ⟨validator, hv, made⟩ := bind_ok_iff.1 made
  cases made
  obtain ⟨view, centred, -⟩ := View.centred_usual sound.usual.area View.standardZoom
  have centred' : View.centred b.cleared.view.width b.cleared.view.height View.standardZoom =
      .ok view := centred
  obtain ⟨memo, rewound⟩ := h.register
  refine ⟨_, by simp only [Board.make, hr, centred, hv]; rfl, ?_, ?_⟩
  · simp only [Board.reset, resetView, centred']
    rfl
  · simp only [Board.reset, resetView, centred']
    exact
      { content := rfl
        said := rfl
        register := ⟨memo, rewound⟩
        honest := ⟨Register.honest_of_make hr, sound.honest.restart⟩
        pointer := ⟨rfl, rfl, rfl, fun pressed => by cases pressed⟩
        counts := ⟨b.generation + 1, b.validator.tickets, b.validator.now,
          (Nat.zero_add _).symm, h.tidy.cancel_eq_later hv h.delay _⟩ }

/-- Whatever session a board went through, once it starts over any further session gives what
it gives on a new board in the same window, with the same palette and delay, and leaves the two
alike. Only texts handed over by hand, for a generation of one's own choice, could tell them
apart. -/
theorem restarts {width height zoom : Float} {palette : List String} {delay : Int}
    {b₀ b : Board Float} (made : Board.make width height zoom palette delay = .ok b₀)
    (actions : List (Action Float)) (reached : b = b₀.afterAll actions) :
    ∃ fresh, Board.make b.view.width b.view.height View.standardZoom palette delay = .ok fresh ∧
      (b.perform .reset).1 = .ok (.feedback (some .reset)) ∧
      ∀ further : List (Action Float), (∀ text generation, .deliver text generation ∉ further) →
        (b.after .reset).results further = fresh.results further ∧
          Alike (fresh.afterAll further) ((b.after .reset).afterAll further) := by
  subst reached
  have rewinds := (Rewinds.of_make made).afterAll actions
  obtain ⟨fresh, new, result, alike⟩ :=
    rewinds.alike made ((Reachable.made made).afterAll actions).sound
  refine ⟨fresh, new, ?_, fun further own => alike.session own⟩
  show (_ : Except Fault Feedback).map _ = _
  rw [result]
  rfl

/-- A session that leaves a drag under way, a text that waits and a label in use. -/
theorem restarts_of_drag : ∃ b fresh : Board Float, b.Reachable ∧
    b.register.labels = 1 ∧ (b.after .reset).pointer.dragging = true ∧
    Board.make b.view.width b.view.height View.standardZoom Register.standardPalette 300 =
      .ok fresh ∧
    (b.after .reset).results [.advance 300, .add "0 < x", .pointerMove ⟨9.0, 9.0⟩] =
      fresh.results [.advance 300, .add "0 < x", .pointerMove ⟨9.0, 9.0⟩] := by
  obtain ⟨b₀, made, run⟩ := exists_made (p := fun b =>
    let b := b.afterAll [.add "x > 0", .validateLater "x > 1", .pointerDown ⟨10.0, 10.0⟩,
      .pointerMove ⟨300.0, 300.0⟩, .touchStart [⟨1.0, 1.0⟩, ⟨5.0, 5.0⟩]]
    b.register.labels == 1 && (b.after .reset).pointer.dragging) (by decide +kernel)
  simp only [Bool.and_eq_true, beq_iff_eq] at run
  obtain ⟨fresh, new, -, same⟩ := restarts made _ rfl
  refine ⟨_, fresh, (Reachable.made made).afterAll _, run.1, run.2, new, ?_⟩
  exact (same _ (by simp)).1

end Board
end HalfPlane
