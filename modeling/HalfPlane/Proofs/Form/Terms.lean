/-
The terms that the text of a sum shows.

A text shows a term at its start and one behind each sign, and a term is one of the first unknown
that stands in it, or a constant (`shownTerms`). A lone zero shows nothing. What is written term by
term, with a sign in front of each, shows these terms (`SumText.shownTerms_eq`).
-/
import HalfPlane.Proofs.Form.RoundTrip

namespace HalfPlane.Formula

/-! ## Reading the terms off a text -/

def signOf? : Char → Option Sign
  | '+' => some .plus
  | '-' => some .minus
  | _ => none

/-- The unknown that stands in a term. -/
def unknownIn (cs : List Char) : Option Unknown :=
  if 'x' ∈ cs then some .x else if 'y' ∈ cs then some .y else none

/-- What stands in front of the first sign, and each sign with what stands behind it. -/
def cutAtSigns : List Char → List Char × List (Sign × List Char)
  | [] => ([], [])
  | c :: cs =>
    match signOf? c with
    | some sign => ([], (sign, (cutAtSigns cs).1) :: (cutAtSigns cs).2)
    | none => (c :: (cutAtSigns cs).1, (cutAtSigns cs).2)

/-- The signed parts of a text. What stands in front of the first sign has a plus. -/
def signedParts (cs : List Char) : List (Sign × List Char) :=
  if (cutAtSigns cs).1 = [] then (cutAtSigns cs).2
  else (.plus, (cutAtSigns cs).1) :: (cutAtSigns cs).2

/-- The terms that the text of a sum shows: the sign and the unknown of each. -/
def shownTerms (text : String) : List (Sign × Option Unknown) :=
  if Text.blankless text = ['0'] then []
  else (signedParts (Text.blankless text)).map fun part => (part.1, unknownIn part.2)

/-! ## Writing terms -/

/-- A sign as it is written: at the start of a text only a minus shows. -/
def Sign.marks (first : Bool) : Sign → List Char
  | .plus => if first then [] else ['+']
  | .minus => ['-']

/-- The character of an unknown. -/
def unknownChars : Option Unknown → List Char
  | none => []
  | some .x => ['x']
  | some .y => ['y']

/-- A character that is neither a sign nor an unknown. -/
def Neutral (c : Char) : Prop := signOf? c = none ∧ c ≠ 'x' ∧ c ≠ 'y'

instance (c : Char) : Decidable (Neutral c) :=
  inferInstanceAs (Decidable (signOf? c = none ∧ c ≠ 'x' ∧ c ≠ 'y'))

/-- What is written of a term without its sign: its unknown, if any, among other characters. -/
structure Body (unknown : Option Unknown) (body : List Char) : Prop where
  some : body ≠ []
  parts : ∃ front back, body = front ++ unknownChars unknown ++ back ∧ (∀ c ∈ front, Neutral c) ∧
    ∀ c ∈ back, Neutral c

/-- What is written of terms, at the start of a text or behind others. -/
inductive SumText : Bool → List Char → List (Sign × Option Unknown) → Prop where
  | nil {first : Bool} : SumText first [] []
  | cons {first : Bool} {sign : Sign} {unknown : Option Unknown} {body cs : List Char}
      {terms : List (Sign × Option Unknown)} : Body unknown body → SumText false cs terms →
      SumText first (sign.marks first ++ body ++ cs) ((sign, unknown) :: terms)

namespace Body
variable {unknown : Option Unknown} {body : List Char}

theorem signless (h : Body unknown body) : ∀ c ∈ body, signOf? c = none := by
  obtain ⟨front, back, rfl, front, back⟩ := h.parts
  intro c hc
  rcases List.mem_append.1 hc with hc | hc
  · rcases List.mem_append.1 hc with hc | hc
    · exact (front c hc).1
    · rcases unknown with _ | _ | _ <;> simp [unknownChars] at hc <;> rw [hc] <;> rfl
  · exact (back c hc).1

theorem unknownIn_eq (h : Body unknown body) : unknownIn body = unknown := by
  obtain ⟨front, back, rfl, front, back⟩ := h.parts
  have x (cs : List Char) (neutral : ∀ c ∈ cs, Neutral c) : 'x' ∉ cs := fun hx => (neutral _ hx).2.1 rfl
  have y (cs : List Char) (neutral : ∀ c ∈ cs, Neutral c) : 'y' ∉ cs := fun hy => (neutral _ hy).2.2 rfl
  rcases unknown with _ | _ | _ <;>
    simp [unknownIn, unknownChars, x _ front, x _ back, y _ front, y _ back]

end Body

/-! ## What is written is shown -/

theorem cutAtSigns_body {body : List Char} (signless : ∀ c ∈ body, signOf? c = none)
    (cs : List Char) :
    cutAtSigns (body ++ cs) = (body ++ (cutAtSigns cs).1, (cutAtSigns cs).2) := by
  induction body with
  | nil => rfl
  | cons c body ih =>
    have none : signOf? c = none := signless c List.mem_cons_self
    rw [List.cons_append, cutAtSigns, none, ih fun d hd => signless d (List.mem_cons_of_mem c hd)]
    rfl

theorem cutAtSigns_marks (sign : Sign) (cs : List Char) :
    cutAtSigns (sign.marks false ++ cs) =
      ([], (sign, (cutAtSigns cs).1) :: (cutAtSigns cs).2) := by
  cases sign <;> rfl

namespace SumText
variable {cs ds : List Char} {terms others : List (Sign × Option Unknown)}

theorem cutAtSigns_eq (h : SumText false cs terms) :
    (cutAtSigns cs).1 = [] ∧
      (cutAtSigns cs).2.map (fun part => (part.1, unknownIn part.2)) = terms := by
  generalize later : false = first at h
  induction h with
  | nil => exact ⟨rfl, rfl⟩
  | cons body rest ih =>
    subst later
    obtain ⟨front, parts⟩ := ih rfl
    rw [List.append_assoc, cutAtSigns_marks, cutAtSigns_body body.signless, front]
    simp [parts, body.unknownIn_eq]

theorem signedParts_eq {first : Bool} (h : SumText first cs terms) :
    (signedParts cs).map (fun part => (part.1, unknownIn part.2)) = terms := by
  cases h with
  | nil => rfl
  | @cons _ sign unknown body rest terms written later =>
    obtain ⟨front, parts⟩ := later.cutAtSigns_eq
    have cut := cutAtSigns_body written.signless rest
    rw [front, List.append_nil] at cut
    have signed : signedParts (sign.marks first ++ body ++ rest) =
        (sign, body) :: (cutAtSigns rest).2 := by
      rw [List.append_assoc]
      rcases sign with _ | _
      · cases first
        · rw [signedParts, cutAtSigns_marks, cut]
          rfl
        · simp [signedParts, Sign.marks, cut, written.some]
      · have marks : Sign.minus.marks first = Sign.minus.marks false := rfl
        rw [signedParts, marks, cutAtSigns_marks, cut]
        rfl
    rw [signed, List.map_cons, parts, written.unknownIn_eq]

/-- What is written behind terms may stand at the start of the text if there are none. -/
theorem append {first : Bool} (h : SumText first cs terms)
    (h' : SumText (first && terms.isEmpty) ds others) :
    SumText first (cs ++ ds) (terms ++ others) := by
  induction h with
  | nil => simpa using h'
  | cons body rest ih =>
    rw [List.append_assoc]
    refine .cons body (ih ?_)
    simpa using h'

theorem shownTerms_eq {first : Bool} {text : String}
    (h : SumText first (Text.blankless text) terms) (some : Text.blankless text ≠ ['0']) :
    shownTerms text = terms := by
  rw [shownTerms, if_neg some, h.signedParts_eq]

end SumText
end HalfPlane.Formula
