/-
Points checked by hand, and how long their verdicts hold.

A verdict is recorded when a point is checked, and only starting over takes it off the board again
(`checked_after`). The system it is about goes on changing: casting adds an inequality, removing
takes one away, and everything else leaves their forms alone (`Sound.forms_after`). So a verdict
says whether the point solved the system as it was then. A good one holds on as long as nothing is
added, a bad one as long as nothing is removed (`verdicts_of_make`). Beyond that it may be out of
date (`not_always_current`).
-/
import HalfPlane.Board.Picture
import HalfPlane.Proofs.Board.Refreshing
import HalfPlane.Proofs.Scene.Frame

namespace HalfPlane
variable {α : Type}

/-! ## Checks and systems -/

namespace Board

/-- The forms of the inequalities on a board, whatever is claimed of them. -/
def forms (b : Board α) : List (LinearForm α) := b.inequalities.map (·.form)

/-- Whether a point satisfies every inequality on a board. -/
def solvedBy [Scalar α] (b : Board α) (p : Point α) : Bool :=
  b.inequalities.all fun q => q.form.satisfies p

theorem solvedBy_of_subset [Scalar α] {b b' : Board α} (h : b'.forms ⊆ b.forms) {p : Point α}
    (solved : b.solvedBy p = true) : b'.solvedBy p = true := by
  rw [solvedBy, List.all_eq_true] at solved ⊢
  intro q hq
  obtain ⟨r, hr, same⟩ := List.mem_map.1 (h (List.mem_map_of_mem hq))
  rw [← same]
  exact solved r hr

/-- Neither the forms on a board nor the points checked against them have changed. -/
structure Still (b b' : Board α) : Prop where
  forms : b'.forms = b.forms
  checked : b'.checked = b.checked

namespace Still
variable {b c : Board α}

theorem refl (b : Board α) : Still b b := ⟨rfl, rfl⟩

theorem say (h : Still b c) (f : Feedback) : Still b (c.say f).2 := ⟨h.forms, h.checked⟩

end Still

/-! ## Casting and claiming -/

section Casting
variable [Scalar α] [Hypot α]

theorem still_refreshAndSay (b : Board α) (f : Feedback) : Still b (b.refreshAndSay f).2 := by
  unfold refreshAndSay refreshed
  cases Corner.ofInequalities b.inequalities <;> exact ⟨rfl, rfl⟩

theorem still_claim (b : Board α) (label : String) (solution : Solution) (f : Feedback) :
    Still b ({ b with inequalities := claimed label solution b.inequalities }.refreshAndSay f).2 :=
  have still := still_refreshAndSay
    { b with inequalities := claimed label solution b.inequalities } f
  ⟨still.forms.trans (map_claimed (fun _ _ => rfl) label solution b.inequalities), still.checked⟩

theorem still_clearChoice (b : Board α) (label : String) : Still b (b.clearChoice label).2 := by
  unfold clearChoice
  split
  · exact .refl b
  · split
    · exact (Still.refl b).say _
    · exact still_claim b _ _ _

theorem still_chooseRegion (b : Board α) (label : String) (side : Option String) :
    Still b (b.chooseRegion label side).2 := by
  unfold chooseRegion
  split
  · exact .refl b
  · split
    · exact .refl b
    · split
      · exact .refl b
      · dsimp only
        split
        · exact ⟨map_claimed (fun _ _ => rfl) _ _ _, rfl⟩
        · exact still_claim b _ _ _

end Casting

/-! ## Naming and pointing -/

section Naming

theorem still_deselect (b : Board α) (i : Nat) (v : Vertex α) : Still b (b.deselect i v) := by
  unfold deselect
  split <;> exact ⟨rfl, rfl⟩

theorem still_select (b : Board α) (index : Int) : Still b (b.select index).2 := by
  unfold select
  split
  · exact .refl b
  · dsimp only
    split
    · exact (still_deselect b _ _).say _
    · split <;> exact ⟨rfl, rfl⟩

theorem still_submit [Scalar α] [Readable α] [Exact α] (b : Board α) (xText yText : String) :
    Still b (b.submit xText yText).2 := by
  simp only [submit]
  repeat' split
  all_goals exact ⟨rfl, rfl⟩

theorem still_missed (b : Board α) : Still b b.missed := by
  unfold missed
  split
  · exact still_deselect b _ _
  · exact ⟨rfl, rfl⟩

variable [Coordinate α]

theorem still_click (b : Board α) (s : Pixel α) : Still b (b.click s).2 := by
  unfold click
  split
  · exact still_select b _
  · split
    · exact .refl b
    · split
      · exact still_missed b
      · exact still_chooseRegion b _ _

theorem still_pointerMove (b : Board α) (s : Pixel α) : Still b (b.pointerMove s).2 := by
  have drag : Still b (b.drag s) := by
    unfold drag
    split <;> exact ⟨rfl, rfl⟩
  exact ⟨drag.forms, drag.checked⟩

theorem still_pointerUp (b : Board α) (s : Pixel α) : Still b (b.pointerUp s).2 := by
  rw [pointerUp_eq]
  split
  · next s _ =>
    have clicked := still_click b.released s
    exact ⟨clicked.forms, clicked.checked⟩
  · exact ⟨rfl, rfl⟩

theorem still_touchMove (b : Board α) (touches : List (Pixel α)) : Still b (b.touchMove touches) := by
  unfold touchMove
  split
  · unfold pinchTo
    split <;> exact ⟨rfl, rfl⟩
  · exact still_pointerMove b _
  · exact .refl b

theorem still_touchEnd (b : Board α) (touches : List (Pixel α)) :
    Still b (b.touchEnd touches).2 := by
  unfold touchEnd
  split
  · dsimp only
    split <;> exact ⟨rfl, rfl⟩
  · split
    · exact .refl b
    · exact still_pointerUp b _

end Naming

/-! ## What an action does -/

/-- The actions that change the system, or record what a point makes of it. -/
def Action.judges : Action α → Bool
  | .add _ | .remove _ | .check _ | .reset => true
  | _ => false

def Action.isReset : Action α → Bool
  | .reset => true
  | _ => false

/-- The point that an action checks. -/
def Action.candidate? : Action α → Option (Point α)
  | .check p => some p
  | _ => none

section Steps
variable [Coordinate α] {b : Board α} {a : Action α}

theorem after_still (idle : a.judges = false) : Still b (b.after a) := by
  cases a with
  | add | remove | check | reset => cases idle
  | clearChoice label => exact still_clearChoice b label
  | chooseRegion label side => exact still_chooseRegion b label side
  | select index => exact still_select b index
  | submit xText yText => exact still_submit b xText yText
  | click s => exact still_click b s
  | pointerMove s => exact still_pointerMove b s
  | pointerUp s => exact still_pointerUp b s
  | touchMove touches => exact still_touchMove b touches
  | touchEnd touches => exact still_touchEnd b touches
  | wheel delta s =>
    show Still b (b.wheel delta s)
    unfold wheel
    split <;> exact ⟨rfl, rfl⟩
  | touchStart touches =>
    show Still b (b.touchStart touches)
    unfold touchStart
    split <;> exact ⟨rfl, rfl⟩
  | resize width height =>
    show Still b (b.resize width height).2
    unfold resize
    split <;> exact ⟨rfl, rfl⟩
  | resetView =>
    show Still b b.resetView.2
    unfold resetView
    split <;> exact ⟨rfl, rfl⟩
  | pointerDown | pan | validateLater | deliver | advance | close => exact ⟨rfl, rfl⟩

theorem reset_empties (b : Board α) : b.reset.2.forms = [] ∧ b.reset.2.checked = [] := by
  unfold reset resetView
  cases View.centred b.cleared.view.width b.cleared.view.height View.standardZoom <;>
    exact ⟨rfl, rfl⟩

theorem check_records (b : Board α) (p : Point α) :
    (b.check p).2.forms = b.forms ∧ (b.check p).2.checked = b.checked ++ [⟨p, b.solvedBy p⟩] := by
  have verdict : (b.inequalities.filter fun q => !q.form.satisfies p).isEmpty = b.solvedBy p := by
    rw [Bool.eq_iff_iff, List.isEmpty_iff, List.filter_eq_nil_iff, solvedBy, List.all_eq_true]
    simp
  unfold check
  dsimp only
  rw [verdict]
  split <;> exact ⟨rfl, rfl⟩

theorem checked_add (b : Board α) (text : String) : (b.add text).2.checked = b.checked := by
  unfold add
  split
  · rfl
  · dsimp only
    split
    · rfl
    · split
      · rfl
      · rfl
      · split
        · rfl
        · rw [(still_refreshAndSay _ _).checked]

theorem checked_remove (b : Board α) (label : String) :
    (b.remove label).2.checked = b.checked := by
  unfold remove
  split
  · rfl
  · rw [(still_refreshAndSay _ _).checked]

/-- A check is recorded with the verdict of its moment. Nothing else is, and no verdict is changed
afterwards. -/
theorem checked_after (b : Board α) (a : Action α) :
    (b.after a).checked =
      if a.isReset then []
      else b.checked ++ (a.candidate?.map fun p => ⟨p, b.solvedBy p⟩).toList := by
  cases a with
  | add text => exact (checked_add b text).trans (List.append_nil _).symm
  | remove label => exact (checked_remove b label).trans (List.append_nil _).symm
  | check p => exact (check_records b p).2
  | reset => exact (reset_empties b).2
  | _ => exact (after_still rfl).checked.trans (List.append_nil _).symm

/-- A text that is cast and added. -/
def Adds (b : Board α) (a : Action α) : Prop := ∃ text, a = .add text ∧ (b.add text).1 = .ok .added

/-- An inequality of the board that is removed. -/
def Removes (b : Board α) (a : Action α) : Prop := ∃ label, a = .remove label ∧ ¬ b.Unknown label

theorem Sound.forms_add [LawfulCoordinate α] (sound : b.Sound) (text : String) :
    (b.add text).2.forms = b.forms ∨
      (b.add text).1 = .ok .added ∧ ∃ form, (b.add text).2.forms = b.forms ++ [form] := by
  have read := sound.honest.read_form text
  have honest := sound.honest.read text
  have same := b.core_read text
  unfold add
  split
  · exact .inl rfl
  · dsimp only
    rw [read]
    generalize (b.register.read text).2 = register at honest same
    split
    · exact .inl rfl
    · next form reads =>
      split
      · exact .inl rfl
      · exact .inl rfl
      · split
        · exact .inl rfl
        · next q entered =>
          have coherent : ({ b with register } : Board α).core.Coherent := same ▸ sound.coherent
          have cast := enter_recast (b := { b with register }) reads entered
          have lines : AllHaveLines (b.inequalities ++ [q]) :=
            (coherent.toWellCast.recast cast).lines
          obtain ⟨corners, -, refreshed⟩ := refreshAndSay_eq (α := α)
            (b := { b with
              register := (register.enter form).2
              inequalities := b.inequalities ++ [q] }) lines .added
          rw [refreshed]
          exact .inr ⟨rfl, q.form, List.map_append⟩

theorem forms_remove (b : Board α) (label : String) :
    (b.remove label).2.forms = b.forms ∨
      ¬ b.Unknown label ∧ (b.remove label).2.forms.Sublist b.forms := by
  by_cases unknown : b.Unknown label
  · left
    rw [remove_unknown (find?_unknown unknown)]
  · obtain ⟨q, -, -, found⟩ := find?_known unknown
    simp only [remove, get_found found, (still_refreshAndSay _ _).forms]
    exact .inr ⟨unknown, List.eraseP_sublist.map _⟩

/-- The forms on a board stay, or one more is added at their end, or some are taken away. -/
theorem Sound.forms_after [LawfulCoordinate α] (sound : b.Sound) (a : Action α) :
    (b.after a).forms = b.forms ∨ (b.Adds a ∧ ∃ form, (b.after a).forms = b.forms ++ [form]) ∨
      (b.Removes a ∨ a.isReset = true) ∧ (b.after a).forms.Sublist b.forms := by
  cases a with
  | add text =>
    rcases sound.forms_add text with same | ⟨added, form, more⟩
    · exact .inl same
    · exact .inr (.inl ⟨⟨text, rfl, added⟩, form, more⟩)
  | remove label =>
    rcases b.forms_remove label with same | ⟨known, fewer⟩
    · exact .inl same
    · exact .inr (.inr ⟨.inl ⟨label, rfl, known⟩, fewer⟩)
  | check p => exact .inl (check_records b p).1
  | reset =>
    have none : (b.after .reset).forms = [] := (reset_empties b).1
    exact .inr (.inr ⟨.inr rfl, by rw [none]; exact List.nil_sublist _⟩)
  | _ => exact .inl (after_still rfl).forms

end Steps

/-! ## Sessions -/

section Sessions
variable [Coordinate α]

/-- The verdict that a session leaves of its action with this number, if that checks a point and
the board has not started over since: what the point makes of the system at that moment. -/
def verdictAt (b : Board α) (actions : List (Action α)) (n : Nat) : Option (CheckedPoint α) :=
  if (actions.drop n).any Action.isReset then none
  else (actions[n]?.bind Action.candidate?).map fun p =>
    ⟨p, (b.afterAll (actions.take n)).solvedBy p⟩

def verdicts (b : Board α) (actions : List (Action α)) : List (CheckedPoint α) :=
  (List.range actions.length).filterMap (b.verdictAt actions)

variable {b : Board α} {actions : List (Action α)} {a : Action α}

theorem verdictAt_snoc {n : Nat} (h : n < actions.length) :
    b.verdictAt (actions ++ [a]) n = if a.isReset then none else b.verdictAt actions n := by
  unfold verdictAt
  rw [List.drop_append_of_le_length h.le, List.getElem?_append_left h,
    List.take_append_of_le_length h.le, List.any_append, List.any_cons, List.any_nil, Bool.or_false]
  cases a.isReset with
  | true => rw [Bool.or_true]; rfl
  | false => rw [Bool.or_false]; rfl

theorem verdictAt_last (b : Board α) (actions : List (Action α)) (a : Action α) :
    b.verdictAt (actions ++ [a]) actions.length =
      if a.isReset then none
      else a.candidate?.map fun p => ⟨p, (b.afterAll actions).solvedBy p⟩ := by
  unfold verdictAt
  rw [List.drop_left, List.take_left, List.getElem?_concat_length]
  simp

theorem verdicts_snoc (b : Board α) (actions : List (Action α)) (a : Action α) :
    b.verdicts (actions ++ [a]) =
      if a.isReset then []
      else b.verdicts actions ++
        (a.candidate?.map fun p => ⟨p, (b.afterAll actions).solvedBy p⟩).toList := by
  have before : (List.range actions.length).filterMap (b.verdictAt (actions ++ [a])) =
      if a.isReset then [] else b.verdicts actions := by
    rw [List.filterMap_congr fun n hn => verdictAt_snoc (List.mem_range.1 hn)]
    cases a.isReset with
    | true => simp
    | false => rfl
  rw [verdicts, List.length_append, List.length_singleton, List.range_succ, List.filterMap_append,
    before, List.filterMap_cons, verdictAt_last]
  cases a.isReset <;> cases a.candidate? <;> simp

theorem afterAll_snoc (b : Board α) (actions : List (Action α)) (a : Action α) :
    b.afterAll (actions ++ [a]) = (b.afterAll actions).after a := List.foldl_concat ..

/-- The points on a board are those checked since it last started over, in order, each with the
verdict of its moment. -/
theorem checked_afterAll (new : b.checked = []) (actions : List (Action α)) :
    (b.afterAll actions).checked = b.verdicts actions := by
  induction actions using List.reverseRecOn with
  | nil => exact new
  | append_singleton actions a ih => rw [afterAll_snoc, checked_after, verdicts_snoc, ih]

/-- No action of a session is of this kind, from this one on. -/
def Never (kind : Board α → Action α → Prop) (b : Board α) (actions : List (Action α)) (n : Nat) :
    Prop :=
  ∀ m a, n ≤ m → actions[m]? = some a → ¬ kind (b.afterAll (actions.take m)) a

/-- What every action of a session keeps, from some action on, is kept to the end. -/
theorem kept_afterAll {R : Board α → Board α → Prop} (refl : ∀ b, R b b)
    (trans : ∀ {b b' b''}, R b b' → R b' b'' → R b b'') {n : Nat}
    (step : ∀ m a, n ≤ m → actions[m]? = some a →
      R (b.afterAll (actions.take m)) ((b.afterAll (actions.take m)).after a)) :
    R (b.afterAll (actions.take n)) (b.afterAll actions) := by
  have along : ∀ k, R (b.afterAll (actions.take n)) (b.afterAll (actions.take (n + k))) := by
    intro k
    induction k with
    | zero => exact refl _
    | succ k ih =>
      cases ha : actions[n + k]? with
      | some a =>
        rw [← Nat.add_assoc, afterAll_take_succ ha]
        exact trans ih (step (n + k) a (by omega) ha)
      | none =>
        have past := List.getElem?_eq_none_iff.1 ha
        have past' : actions.length ≤ n + (k + 1) := by omega
        rw [List.take_of_length_le past] at ih
        rw [List.take_of_length_le past']
        exact ih
  have whole : actions.take (n + actions.length) = actions :=
    List.take_of_length_le (Nat.le_add_left _ _)
  have ends := along actions.length
  rw [whole] at ends
  exact ends

theorem isReset_of_verdictAt {n : Nat} {c : CheckedPoint α} (h : b.verdictAt actions n = some c)
    {m : Nat} (later : n ≤ m) (ha : actions[m]? = some a) : a.isReset = false := by
  unfold verdictAt at h
  split at h
  · cases h
  · next still =>
    have at' : (actions.drop n)[m - n]? = some a := by
      rw [List.getElem?_drop, Nat.add_sub_cancel' later]
      exact ha
    rw [Bool.not_eq_true, List.any_eq_false] at still
    exact Bool.eq_false_iff.2 (still a (List.mem_of_getElem? at'))

theorem ok_of_verdictAt {n : Nat} {c : CheckedPoint α} (h : b.verdictAt actions n = some c) :
    c.ok = (b.afterAll (actions.take n)).solvedBy c.point := by
  unfold verdictAt at h
  split at h
  · cases h
  · obtain ⟨p, -, rfl⟩ := Option.map_eq_some_iff.1 h
    rfl

variable [LawfulCoordinate α]

theorem forms_subset_of_never (sound : ∀ m, (b.afterAll (actions.take m)).Sound) {n : Nat}
    (never : Never Adds b actions n) :
    (b.afterAll actions).forms ⊆ (b.afterAll (actions.take n)).forms := by
  refine kept_afterAll (R := fun b b' => b'.forms ⊆ b.forms) (fun _ => List.Subset.refl _)
    (fun first next => List.Subset.trans next first) fun m a later ha => ?_
  rcases (sound m).forms_after a with same | ⟨adds, -⟩ | ⟨-, fewer⟩
  · exact same ▸ List.Subset.refl _
  · exact absurd adds (never m a later ha)
  · exact fewer.subset

theorem subset_forms_of_never (sound : ∀ m, (b.afterAll (actions.take m)).Sound) {n : Nat}
    (never : Never Removes b actions n)
    (runs : ∀ m a, n ≤ m → actions[m]? = some a → a.isReset = false) :
    (b.afterAll (actions.take n)).forms ⊆ (b.afterAll actions).forms := by
  refine kept_afterAll (R := fun b b' => b.forms ⊆ b'.forms) (fun _ => List.Subset.refl _)
    (fun first next => List.Subset.trans first next) fun m a later ha => ?_
  rcases (sound m).forms_after a with same | ⟨-, form, more⟩ | ⟨removes | resets, -⟩
  · exact same ▸ List.Subset.refl _
  · rw [more]
    exact List.subset_append_left _ _
  · exact absurd removes (never m a later ha)
  · rw [runs m a later ha] at resets
    cases resets

end Sessions

/-! ## Boards of doubles -/

/-- The points on a board are those checked since it last started over, in order, each with the
verdict of its moment, and a frame shows each in the colour of that verdict. A good verdict still
holds if nothing has been added since, and a bad one if nothing has been removed. -/
theorem verdicts_of_make {width height zoom : Float} {palette : List String} {delay : Int}
    {b : Board Float} (made : Board.make width height zoom palette delay = .ok b)
    (actions : List (Action Float)) :
    (b.afterAll actions).checked = b.verdicts actions ∧
      (∀ n c, b.verdictAt actions n = some c →
        (Never Adds b actions n → c.ok = true → (b.afterAll actions).solvedBy c.point = true) ∧
        (Never Removes b actions n → c.ok = false →
          (b.afterAll actions).solvedBy c.point = false)) ∧
      ∀ marks, (b.afterAll actions).scene = .ok marks →
        marks.filterMap Mark.verdict? = (b.verdicts actions).map fun c =>
          ((b.afterAll actions).view.toScreen c.point,
            if c.ok then Theme.pointOk else Theme.pointBad) := by
  have new : b.checked = [] := by
    obtain ⟨_, -, h⟩ := bind_ok_iff.1 made
    obtain ⟨_, -, h⟩ := bind_ok_iff.1 h
    obtain ⟨_, -, h⟩ := bind_ok_iff.1 h
    cases h
    rfl
  have sound : ∀ m, (b.afterAll (actions.take m)).Sound := fun m =>
    ((Reachable.made made).afterAll _).sound
  have checked := checked_afterAll new actions
  refine ⟨checked, fun n c hc => ⟨fun never good => ?_, fun never bad => ?_⟩, fun marks drawn => ?_⟩
  · rw [ok_of_verdictAt hc] at good
    exact solvedBy_of_subset (forms_subset_of_never sound never) good
  · have kept := subset_forms_of_never sound never fun _ _ => isReset_of_verdictAt hc
    rw [ok_of_verdictAt hc] at bad
    rw [Bool.eq_false_iff]
    intro solved
    rw [solvedBy_of_subset kept solved] at bad
    cases bad
  · rw [← checked]
    generalize b.afterAll actions = b' at drawn
    exact Scene.filterMap_verdict? (c := b'.content) drawn

/-- A session in which a point is refuted by one inequality, and then another one is added. -/
def refuted : List (Action Float) := [.add "x > 1", .check ⟨0.0, 0.0⟩, .add "y > 1"]

theorem verdicts_of_refuted : ∃ (b : Board Float) (c : CheckedPoint Float),
    Board.make 600.0 600.0 40.0 Register.standardPalette 300 = .ok b ∧
      b.verdictAt refuted 1 = some c ∧ (b.afterAll refuted).checked = b.verdicts refuted ∧
      (b.afterAll refuted).solvedBy c.point = false := by
  obtain ⟨b, made, run⟩ := exists_made (p := fun b =>
    (b.verdictAt refuted 1).any fun c => !c.ok) (by decide +kernel)
  simp only [Option.any_eq_true, Bool.not_eq_true'] at run
  obtain ⟨c, hc, bad⟩ := run
  obtain ⟨recorded, lasting, -⟩ := verdicts_of_make made refuted
  have never : Never Removes b refuted 1 := by
    rintro m a - ha ⟨label, rfl, -⟩
    have mem := List.mem_of_getElem? ha
    simp [refuted] at mem
  exact ⟨b, c, made, hc, recorded, (lasting 1 c hc).2 never bad⟩

/-- A session in which a point solves an empty system, and then an inequality refutes it. -/
def outdated : List (Action Float) := [.check ⟨0.0, 0.0⟩, .add "x > 1"]

/-- So a verdict need not be that of the system now on the board. -/
theorem not_always_current :
    ¬ ∀ b : Board Float, b.Reachable → ∀ c ∈ b.checked, c.ok = b.solvedBy c.point := by
  intro always
  obtain ⟨b, made, run⟩ := exists_made (p := fun b =>
    (b.afterAll outdated).checked.any fun c =>
      c.ok && !(b.afterAll outdated).solvedBy c.point) (by decide +kernel)
  simp only [List.any_eq_true, Bool.and_eq_true, Bool.not_eq_true'] at run
  obtain ⟨c, hc, good, refutes⟩ := run
  have current := always _ ((Reachable.made made).afterAll outdated) c hc
  rw [good, refutes] at current
  cases current

end Board
end HalfPlane
