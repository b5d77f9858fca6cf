/-
A formula read from its words: a signed sum of terms, a comparison, and another sum.

A term is a literal, an unknown, or a literal and an unknown with or without a
multiplication sign between them. The first term of a side may have a sign, every
other one has one.
-/
import HalfPlane.Formula.Token

namespace HalfPlane

/-- A signed term. Without an unknown it is a constant. -/
structure Term (α : Type) where
  unknown : Option Formula.Unknown
  coefficient : α

/-- Two sums and the comparison between them. -/
structure Formula (α : Type) where
  left : List (Term α)
  comparison : Formula.Comparison
  right : List (Term α)

namespace Formula
variable {α : Type} [Scalar α]

def Token.sign? : Token → Option α
  | .plus => some 1.0
  | .minus => some (-1.0)
  | _ => none

/-- The term at the front of some words, whose sign `sign` has been read, and the
rest. -/
def splitTerm (sign : α) : List Token → Except Misreading (Term α × List Token)
  | .number l :: .times :: .unknown u :: rest => .ok (⟨some u, sign * l.value⟩, rest)
  | .number _ :: .times :: rest => .error (.missing .unknown rest.head?)
  | .number l :: .unknown u :: rest => .ok (⟨some u, sign * l.value⟩, rest)
  | .number l :: rest => .ok (⟨none, sign * l.value⟩, rest)
  | .unknown u :: rest => .ok (⟨some u, sign⟩, rest)
  | rest => .error (.noTerm rest.head?)

/-- A term takes at least one word. -/
theorem splitTerm_shorter {sign : α} {ts rest : List Token} {t : Term α}
    (h : splitTerm sign ts = .ok (t, rest)) : rest.length < ts.length := by
  unfold splitTerm at h
  split at h <;> simp at h <;> (rw [← h.2]; simp only [List.length_cons]; omega)

/-- The signed terms at the front of some words, and the rest. -/
def splitTerms (ts : List Token) : Except Misreading (List (Term α) × List Token) :=
  match ts with
  | [] => .ok ([], [])
  | t :: tail =>
    match (t.sign? : Option α) with
    | none => .ok ([], t :: tail)
    | some sign =>
      match h : splitTerm sign tail with
      | .error e => .error e
      | .ok (term, rest) =>
        have : rest.length < (t :: tail).length := Nat.lt_succ_of_lt (splitTerm_shorter h)
        (splitTerms rest).map fun (terms, rest) => (term :: terms, rest)
termination_by ts.length
decreasing_by exact this

/-- The first term of a side and the rest: its sign may be missing. -/
def splitFirst : List Token → Except Misreading (Term α × List Token)
  | [] => splitTerm 1.0 []
  | t :: tail =>
    match (t.sign? : Option α) with
    | none => splitTerm 1.0 (t :: tail)
    | some sign => splitTerm sign tail

/-- A side of a formula at the front of some words, and the rest. -/
def splitSide (ts : List Token) : Except Misreading (List (Term α) × List Token) := do
  let (first, rest) ← splitFirst ts
  let (terms, rest) ← splitTerms rest
  return (first :: terms, rest)

/-- The comparison at the front of some words, and the rest. -/
def splitComparison : List Token → Except Misreading (Comparison × List Token)
  | .comparison c :: rest => .ok (c, rest)
  | rest => .error (.missing .comparison rest.head?)

/-- The formula that some words spell out, all of them. -/
def ofTokens (ts : List Token) : Except Misreading (Formula α) := do
  let (left, rest) ← splitSide ts
  let (comparison, rest) ← splitComparison rest
  let (right, rest) ← splitSide rest
  match rest with
  | [] => return ⟨left, comparison, right⟩
  | t :: _ => throw (.missing .stop (some t))

def ofText (text : String) : Except Misreading (Formula α) := tokens text >>= ofTokens

end Formula
end HalfPlane
