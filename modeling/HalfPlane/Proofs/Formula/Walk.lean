/-
The reader of words as a walk from position to position.

The words lie in a row with an end mark behind the last one, and the walk looks at them one
at a time. A look past the end mark would fail with a failure of its own. It never comes to
that: at every position the walk does what the reader does with the words from there on
(`Agrees`), so it ends with the same formula or the same misreading (`Walk.formula_eq`).
What becomes of a text, word by word, is put together at the end (`ofText_reads`).
-/
import HalfPlane.Form.Canonical
import HalfPlane.Proofs.Formula.Reading

namespace HalfPlane.Formula

/-- How a walk fails: the words are misread, or it looks past the end mark. -/
inductive Stumble where
  | misread (m : Misreading)
  | beyondEnd (position : Nat)
deriving DecidableEq

namespace Walk
variable {α : Type} [Scalar α]

/-- The word at a position. No word stands for the end mark. -/
def look (ts : List Token) (i : Nat) : Except Stumble (Option Token) :=
  if i ≤ ts.length then .ok ts[i]? else .error (.beyondEnd i)

/-- The term at a position, whose sign `sign` has been read, and the position behind it. -/
def term (ts : List Token) (sign : α) (i : Nat) : Except Stumble (Term α × Nat) := do
  match ← look ts i with
  | some (.number l) =>
    match ← look ts (i + 1) with
    | some .times =>
      match ← look ts (i + 2) with
      | some (.unknown u) => return (⟨some u, sign * l.value⟩, i + 3)
      | found => throw (.misread (.missing .unknown found))
    | some (.unknown u) => return (⟨some u, sign * l.value⟩, i + 2)
    | _ => return (⟨none, sign * l.value⟩, i + 1)
  | some (.unknown u) => return (⟨some u, sign⟩, i + 1)
  | found => throw (.misread (.noTerm found))

/-- The first term of a side, whose sign may be missing. -/
def first (ts : List Token) (i : Nat) : Except Stumble (Term α × Nat) := do
  match (← look ts i).bind Token.sign? with
  | some sign => term ts sign (i + 1)
  | none => term ts 1.0 i

/-- The signed terms from a position on. Each round starts at a word, so there are no more
rounds than words. -/
def terms (ts : List Token) : Nat → Nat → Except Stumble (List (Term α) × Nat)
  | 0, i => return ([], i)
  | rounds + 1, i => do
    match (← look ts i).bind Token.sign? with
    | none => return ([], i)
    | some sign =>
      let (t, i) ← term ts sign (i + 1)
      let (more, i) ← terms ts rounds i
      return (t :: more, i)

def side (ts : List Token) (i : Nat) : Except Stumble (List (Term α) × Nat) := do
  let (t, i) ← first ts i
  let (more, i) ← terms ts ts.length i
  return (t :: more, i)

def comparison (ts : List Token) (i : Nat) : Except Stumble (Comparison × Nat) := do
  match ← look ts i with
  | some (.comparison c) => return (c, i + 1)
  | found => throw (.misread (.missing .comparison found))

/-- The formula that the words from the first one to the end mark spell out. -/
def formula (ts : List Token) : Except Stumble (Formula α) := do
  let (left, i) ← side ts 0
  let (c, i) ← comparison ts i
  let (right, i) ← side ts i
  match ← look ts i with
  | none => return ⟨left, c, right⟩
  | some t => throw (.misread (.missing .stop (some t)))

/-! ## The walk and the reader -/

/-- A walk that is at a position and a reader that has the words from there on left: both got
the same, or both misread the same. -/
inductive Agrees {β : Type} (ts : List Token) :
    Except Stumble (β × Nat) → Except Misreading (β × List Token) → Prop where
  | misread (m : Misreading) : Agrees ts (.error (.misread m)) (.error m)
  | read (b : β) {i : Nat} : i ≤ ts.length → Agrees ts (.ok (b, i)) (.ok (b, ts.drop i))

theorem Agrees.bind {β γ : Type} {ts : List Token} {x : Except Stumble (β × Nat)}
    {y : Except Misreading (β × List Token)} (h : Agrees ts x y)
    {f : β × Nat → Except Stumble (γ × Nat)}
    {g : β × List Token → Except Misreading (γ × List Token)}
    (next : ∀ b i, i ≤ ts.length → y = .ok (b, ts.drop i) →
      Agrees ts (f (b, i)) (g (b, ts.drop i))) :
    Agrees ts (x >>= f) (y >>= g) := by
  cases h with
  | misread m => exact .misread m
  | read b inside => exact next b _ inside rfl

theorem Agrees.bind_eq {β γ : Type} {ts : List Token} {x : Except Stumble (β × Nat)}
    {y : Except Misreading (β × List Token)} (h : Agrees ts x y)
    {f : β × Nat → Except Stumble γ} {g : β × List Token → Except Misreading γ}
    (next : ∀ b i, i ≤ ts.length → f (b, i) = (g (b, ts.drop i)).mapError .misread) :
    x >>= f = (y >>= g).mapError .misread := by
  cases h with
  | misread m => rfl
  | read b inside => exact next b _ inside

variable {ts : List Token} {i : Nat}

theorem look_inside (inside : i ≤ ts.length) : look ts i = .ok (ts.drop i).head? := by
  rw [look, if_pos inside, List.head?_drop]

/-- Where a word is, the walk can go on to the words behind it. -/
theorem behind {w : Token} {rest : List Token} (h : ts.drop i = w :: rest) :
    i + 1 ≤ ts.length ∧ ts.drop (i + 1) = rest := by
  have inside : i < ts.length := by
    by_cases outside : ts.length ≤ i
    · rw [List.drop_eq_nil_of_le outside] at h; cases h
    · omega
  rw [← List.tail_drop, h]
  exact ⟨inside, rfl⟩

theorem term_agrees (sign : α) (inside : i ≤ ts.length) :
    Agrees ts (term ts sign i) (splitTerm sign (ts.drop i)) := by
  unfold term
  rw [look_inside inside]
  cases here : ts.drop i with
  | nil => exact .misread _
  | cons w rest =>
    obtain ⟨inside₁, rfl⟩ := behind here
    cases w with
    | unknown u => exact .read _ inside₁
    | plus | minus | times | comparison => exact .misread _
    | number l =>
      have alone : Agrees ts (.ok ((⟨none, sign * l.value⟩ : Term α), i + 1))
          (.ok (⟨none, sign * l.value⟩, ts.drop (i + 1))) := .read _ inside₁
      show Agrees ts (look ts (i + 1) >>= _) _
      rw [look_inside inside₁]
      cases next : ts.drop (i + 1) with
      | nil => rw [next] at alone; exact alone
      | cons v rest =>
        rw [next] at alone
        obtain ⟨inside₂, rfl⟩ := behind next
        cases v with
        | unknown u => exact .read _ inside₂
        | plus | minus | number | comparison => exact alone
        | times =>
          show Agrees ts (look ts (i + 1 + 1) >>= _) _
          rw [look_inside inside₂]
          cases last : ts.drop (i + 1 + 1) with
          | nil => exact .misread _
          | cons u rest =>
            obtain ⟨inside₃, rfl⟩ := behind last
            cases u with
            | unknown u => exact .read _ inside₃
            | plus | minus | times | number | comparison => exact .misread _

theorem first_agrees (inside : i ≤ ts.length) :
    Agrees ts (first ts i) (splitFirst (ts.drop i) : Except Misreading (Term α × List Token)) := by
  unfold first
  rw [look_inside inside]
  cases here : ts.drop i with
  | nil =>
    have unsigned := term_agrees (1.0 : α) inside
    rw [here] at unsigned
    exact unsigned
  | cons w rest =>
    have unsigned := term_agrees (1.0 : α) inside
    rw [here] at unsigned
    obtain ⟨inside₁, rfl⟩ := behind here
    cases w with
    | plus | minus => exact term_agrees _ inside₁
    | number | unknown | times | comparison => exact unsigned

theorem terms_agrees :
    ∀ {rounds i : Nat}, i ≤ ts.length → ts.length ≤ i + rounds →
      Agrees ts (terms ts rounds i)
        (splitTerms (ts.drop i) : Except Misreading (List (Term α) × List Token))
  | 0, i, inside, enough => by
    have atEnd : i = ts.length := by omega
    rw [atEnd, List.drop_length, splitTerms, terms]
    have done : Agrees ts (.ok (([] : List (Term α)), ts.length)) (.ok ([], ts.drop ts.length)) :=
      .read [] (Nat.le_refl _)
    rwa [List.drop_length] at done
  | rounds + 1, i, inside, enough => by
    have signed : ∀ s : Sign, i + 1 ≤ ts.length →
        Agrees ts (do
            let (t, i) ← term ts (s.value : α) (i + 1)
            let (more, i) ← terms ts rounds i
            return (t :: more, i))
          (splitTerms (s.word :: ts.drop (i + 1))) := by
      intro s inside₁
      rw [splitTerms_sign]
      refine (term_agrees s.value inside₁).bind fun t j inside taken => ?_
      have shorter := splitTerm_shorter taken
      rw [List.length_drop, List.length_drop] at shorter
      refine (terms_agrees inside (by omega)).bind fun more k inside _ => ?_
      exact .read _ inside
    have stop : Agrees ts (.ok (([] : List (Term α)), i)) (.ok ([], ts.drop i)) := .read [] inside
    unfold terms
    rw [look_inside inside]
    cases here : ts.drop i with
    | nil =>
      rw [here] at stop
      rw [splitTerms]
      exact stop
    | cons w rest =>
      rw [here] at stop
      obtain ⟨inside₁, rfl⟩ := behind here
      cases w with
      | plus => exact signed .plus inside₁
      | minus => exact signed .minus inside₁
      | number | unknown | times | comparison =>
        rw [splitTerms_stop (α := α) (by rintro t ⟨⟩; rfl)]
        exact stop

theorem side_agrees (inside : i ≤ ts.length) :
    Agrees ts (side ts i)
      (splitSide (ts.drop i) : Except Misreading (List (Term α) × List Token)) := by
  refine (first_agrees inside).bind fun t j inside _ => ?_
  refine (terms_agrees inside (by omega)).bind fun more k inside _ => ?_
  exact .read _ inside

theorem comparison_agrees (inside : i ≤ ts.length) :
    Agrees ts (comparison ts i) (splitComparison (ts.drop i)) := by
  unfold comparison
  rw [look_inside inside]
  cases here : ts.drop i with
  | nil => exact .misread _
  | cons w rest =>
    obtain ⟨inside₁, rfl⟩ := behind here
    cases w with
    | comparison c => exact .read _ inside₁
    | number | unknown | plus | minus | times => exact .misread _

/-- The walk ends as the reader does, and never with a look past the end mark. -/
theorem formula_eq (ts : List Token) :
    formula ts = (ofTokens ts : Except Misreading (Formula α)).mapError .misread := by
  have start : Agrees ts (side ts 0) (splitSide ts : Except Misreading (List (Term α) × _)) :=
    side_agrees (Nat.zero_le _)
  refine start.bind_eq fun left i inside => ?_
  refine (comparison_agrees inside).bind_eq fun c j inside => ?_
  refine (side_agrees inside).bind_eq fun right k inside => ?_
  dsimp only
  rw [look_inside inside]
  cases ts.drop k with
  | nil => rfl
  | cons t rest => rfl

end Walk

/-! ## What becomes of a text -/

section Text
variable {α : Type} [Scalar α]

/-- A text is read exactly when its normal spelling is the text of a reading. It has one such
reading then, and what is read are the terms of that one. Every other text is misread, and
has no form. The walk over the words of a text never looks past their end mark. -/
theorem ofText_reads (text : String) :
    ((∃ s : Shape α, Shape.ofText text = .ok s) ↔ ∃ r : Reading, r.text = normalize text) ∧
      (∀ r : Reading, r.text = normalize text →
        ofText text = .ok (r.formula : Formula α) ∧
          Shape.ofText text = .ok (Shape.ofFormula (r.formula : Formula α)) ∧
          LinearForm.ofText? text = LinearForm.ofShape? (Shape.ofFormula (r.formula : Formula α)) ∧
          ∀ r' : Reading, r'.text = normalize text → r' = r) ∧
      ((¬ ∃ r : Reading, r.text = normalize text) →
        ∃ m : Misreading, (ofText text : Except _ (Formula α)) = .error m ∧
          (Shape.ofText text : Except _ (Shape α)) = .error m ∧
          (LinearForm.ofText? text : Option (LinearForm α)) = none) ∧
      ∀ ts, tokens text = .ok ts →
        Walk.formula ts = (ofTokens ts : Except Misreading (Formula α)).mapError .misread := by
  have read : ∀ r : Reading, r.text = normalize text →
      Shape.ofText text = .ok (Shape.ofFormula (r.formula : Formula α)) := by
    intro r h
    rw [Shape.ofText, ofText_of_text h]
    rfl
  refine ⟨⟨?_, fun ⟨r, h⟩ => ⟨_, read r h⟩⟩, fun r h => ⟨ofText_of_text h, read r h, ?_, ?_⟩, ?_,
    fun ts _ => Walk.formula_eq ts⟩
  · rintro ⟨s, h⟩
    obtain ⟨f, h, -⟩ := map_ok_iff.1 h
    obtain ⟨r, h, -⟩ := text_of_ofText h
    exact ⟨r, h⟩
  · rw [LinearForm.ofText?, read r h]
  · exact fun r' h' => Reading.eq_of_text (h'.trans h.symm)
  · intro none
    cases misread : (ofText text : Except Misreading (Formula α)) with
    | ok f =>
      obtain ⟨r, h, -⟩ := text_of_ofText misread
      exact absurd ⟨r, h⟩ none
    | error m =>
      have shape : (Shape.ofText text : Except _ (Shape α)) = .error m := by
        rw [Shape.ofText, misread]
        rfl
      exact ⟨m, rfl, shape, by rw [LinearForm.ofText?, shape]⟩

end Text
end HalfPlane.Formula
