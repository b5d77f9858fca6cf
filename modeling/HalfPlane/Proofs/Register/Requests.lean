/-
The memory of a register never shows in its replies.

A register serves requests for forms, entries, labels and colours in any order, and an entry that
cannot be written out still uses up a label and a colour. What is remembered stays honest
throughout. Registers are `Alike` if they differ in their memories only, and both are honest; every
request gets the same reply from both and leaves them alike, so a run of requests does
(`Alike.serveAll`). How much a register has room for decides what it forgets, and no more.
-/
import HalfPlane.Proofs.Board.Casting

namespace HalfPlane.Register
variable {α : Type}

/-- What can be asked of a register. -/
inductive Request where
  | read (text : String)
  | readEntry (text : String)
  | nextLabel
  | nextColor
  | restart

/-- What it replies. -/
inductive Reply (α : Type) where
  | form (form : Option (LinearForm α))
  | entry (entry : Except Fault (Option (Inequality α)))
  | label (label : String)
  | color (color : String)
  | done

section Serving
variable [Scalar α] [Exact α]

def serve (r : Register α) : Request → Reply α × Register α
  | .read text => (.form (r.read text).1, (r.read text).2)
  | .readEntry text => (.entry (r.readEntry text).1, (r.readEntry text).2)
  | .nextLabel => (.label r.nextLabel.1, r.nextLabel.2)
  | .nextColor => (.color r.nextColor.1, r.nextColor.2)
  | .restart => (.done, r.restart)

/-- The replies to a run of requests, and the register after it. -/
def serveAll : Register α → List Request → List (Reply α) × Register α
  | r, [] => ([], r)
  | r, request :: requests =>
    ((r.serve request).1 :: ((r.serve request).2.serveAll requests).1,
      ((r.serve request).2.serveAll requests).2)

end Serving

/-- Registers that differ in what they remember, and remember nothing but forms of texts. -/
structure Alike [Scalar α] (r r' : Register α) : Prop where
  memo : ∃ memo, r' = { r with memo }
  honest : r.Honest
  honest' : r'.Honest

variable [Scalar α] {r r' : Register α}

/-! ## One request -/

theorem Alike.read (h : Alike r r') (text : String) :
    (r'.read text).1 = (r.read text).1 ∧ Alike (r.read text).2 (r'.read text).2 := by
  refine ⟨?_, ?_, h.honest.read text, h.honest'.read text⟩
  · rw [h.honest'.read_form, h.honest.read_form]
  · obtain ⟨memo, rfl⟩ := h.memo
    obtain ⟨after, hr⟩ := r.read_memo text
    obtain ⟨after', hr'⟩ := ({ r with memo } : Register α).read_memo text
    rw [hr, hr']
    exact ⟨after', rfl⟩

variable [Exact α]

/-- With an honest memory an entry is that of the form of its text. -/
theorem Honest.readEntry_eq (h : r.Honest) (text : String) :
    r.readEntry text =
      match LinearForm.ofText? text with
      | none => (.ok none, (r.read text).2)
      | some form =>
        (((r.read text).2.enter form).1.map some, ((r.read text).2.enter form).2) := by
  rw [← h.read_form text]
  unfold readEntry
  rcases r.read text with ⟨_ | form, r⟩ <;> rfl

namespace Alike

theorem enter (h : Alike r r') (form : LinearForm α) :
    (r'.enter form).1 = (r.enter form).1 ∧ Alike (r.enter form).2 (r'.enter form).2 := by
  obtain ⟨⟨memo, rfl⟩, honest, honest'⟩ := h
  exact ⟨rfl, ⟨memo, rfl⟩, honest.enter form, honest'.enter form⟩

theorem readEntry (h : Alike r r') (text : String) :
    (r'.readEntry text).1 = (r.readEntry text).1 ∧
      Alike (r.readEntry text).2 (r'.readEntry text).2 := by
  have alike := (h.read text).2
  rw [h.honest.readEntry_eq, h.honest'.readEntry_eq]
  split
  · exact ⟨rfl, alike⟩
  · next form _ =>
    -- The label and the colour are used up whether or not the form can be written out.
    obtain ⟨same, entered⟩ := alike.enter form
    exact ⟨congrArg (Except.map some) same, entered⟩

theorem serve (h : Alike r r') (request : Request) :
    (r'.serve request).1 = (r.serve request).1 ∧
      Alike (r.serve request).2 (r'.serve request).2 := by
  cases request with
  | read text =>
    obtain ⟨same, alike⟩ := h.read text
    exact ⟨congrArg Reply.form same, alike⟩
  | readEntry text =>
    obtain ⟨same, alike⟩ := h.readEntry text
    exact ⟨congrArg Reply.entry same, alike⟩
  | nextLabel | nextColor | restart =>
    obtain ⟨⟨memo, rfl⟩, honest, honest'⟩ := h
    exact ⟨rfl, ⟨memo, rfl⟩, honest, honest'⟩

/-! ## Any run of requests -/

theorem serveAll (h : Alike r r') (requests : List Request) :
    (r'.serveAll requests).1 = (r.serveAll requests).1 ∧
      Alike (r.serveAll requests).2 (r'.serveAll requests).2 := by
  induction requests generalizing r r' with
  | nil => exact ⟨rfl, h⟩
  | cons request requests ih =>
    obtain ⟨same, alike⟩ := h.serve request
    obtain ⟨replies, after⟩ := ih alike
    refine ⟨?_, after⟩
    rw [Register.serveAll, Register.serveAll, same, replies]

end Alike

/-! ## New registers -/

omit [Scalar α] [Exact α] in
theorem make_eq {palette : List String} {colors : Colors}
    (colours : Colors.ofPalette? palette = some colors) (initial : String) {memory : Int}
    (room : 1 ≤ memory) :
    make palette initial memory = .ok (⟨initial, 0, colors, .empty memory.toNat⟩ : Register α) := by
  have some : ¬ memory ≤ 0 := by omega
  simp only [make, colours, if_neg some]

/-- Registers made with different room for their memories give the same replies to any run of
requests, entries that were refused among them, and what they remember of a text at any time is
its form. -/
theorem memory_never_shows {palette : List String} (colours : palette ≠ []) (initial : String)
    {memory memory' : Int} (room : 1 ≤ memory) (room' : 1 ≤ memory') :
    ∃ r r' : Register α, make palette initial memory = .ok r ∧
      make palette initial memory' = .ok r' ∧
      ∀ requests : List Request,
        (∀ e ∈ (r.serveAll requests).2.memo.entries, e.2 = LinearForm.ofText? e.1) ∧
        (∀ text, ((r.serveAll requests).2.read text).1 = LinearForm.ofText? text) ∧
        (r'.serveAll requests).1 = (r.serveAll requests).1 := by
  obtain ⟨colors, found⟩ : ∃ colors, Colors.ofPalette? palette = some colors := by
    cases palette with
    | nil => exact absurd rfl colours
    | cons first others => exact ⟨_, rfl⟩
  have made := make_eq (α := α) found initial room
  have made' := make_eq (α := α) found initial room'
  have alike : Alike _ _ := ⟨⟨_, rfl⟩, honest_of_make made, honest_of_make made'⟩
  refine ⟨_, _, made, made', fun requests => ?_⟩
  obtain ⟨replies, after⟩ := alike.serveAll requests
  exact ⟨after.honest, after.honest.read_form, replies⟩

/-- With room for one text a form that cannot be written out is read anew, and with more room it is
remembered; it is refused either way, and the labels and colours go on alike. -/
theorem memory_never_shows_of_refusal : ∃ r r' : Register Float,
    make ["#4e31aa", "#2c3e50"] "d" 1 = .ok r ∧ make ["#4e31aa", "#2c3e50"] "d" 256 = .ok r' ∧
    (∃ e, (r.readEntry Board.beyondText).1 = .error e) ∧
    (r'.serveAll [.readEntry Board.beyondText, .read "0 < x", .readEntry Board.beyondText,
        .nextColor, .restart, .readEntry "0 < x"]).1 =
      (r.serveAll [.readEntry Board.beyondText, .read "0 < x", .readEntry Board.beyondText,
        .nextColor, .restart, .readEntry "0 < x"]).1 := by
  have colours : ["#4e31aa", "#2c3e50"] ≠ [] := by simp
  have room : (1 : Int) ≤ 1 := by decide
  have room' : (1 : Int) ≤ 256 := by decide
  obtain ⟨r, r', made, made', served⟩ := memory_never_shows (α := Float) colours "d" room room'
  refine ⟨r, r', made, made', ?_, (served _).2.2⟩
  obtain ⟨form, read, infinite⟩ := Board.read_beyondText
  rw [(honest_of_make made).readEntry_eq, read]
  cases plain : form.plain with
  | ok text => exact absurd (LinearForm.plain_succeeds_iff.1 ⟨text, plain⟩) infinite
  | error e =>
    refine ⟨e, ?_⟩
    simp only [Register.enter, plain]
    rfl

end HalfPlane.Register
