/-
The words of a formula: literals, unknowns, signs and comparisons, and why a text has
none.
-/
import HalfPlane.Formula.Spelling
import HalfPlane.Scalar
import HalfPlane.Text.Quoted

namespace HalfPlane.Formula

/-- The two unknowns of a formula. -/
inductive Unknown where
  | x
  | y
deriving DecidableEq

def Unknown.name : Unknown → String
  | .x => "x"
  | .y => "y"

/-- The comparison between two sides. -/
inductive Comparison where
  | lt
  | le
  | gt
  | ge
  | eq
  | ne
deriving DecidableEq

def Comparison.symbol : Comparison → String
  | .lt => "<"
  | .le => "<="
  | .gt => ">"
  | .ge => ">="
  | .eq => "="
  | .ne => "!="

/-- A number as written: digits, and digits after a point. -/
structure Literal where
  whole : List Char
  point : Bool
  places : List Char
deriving DecidableEq

namespace Literal

def text (l : Literal) : String :=
  String.ofList (l.whole ++ (if l.point then ['.'] else []) ++ l.places)

def value {α : Type} [Scalar α] (l : Literal) : α :=
  OfScientific.ofScientific (Text.digitsValue (l.whole ++ l.places)) true l.places.length

end Literal

/-- A word of a formula. -/
inductive Token where
  | number (l : Literal)
  | unknown (u : Unknown)
  | plus
  | minus
  | times
  | comparison (c : Comparison)
deriving DecidableEq

namespace Token

def text : Token → String
  | .number l => l.text
  | .unknown u => u.name
  | .plus => "+"
  | .minus => "-"
  | .times => "*"
  | .comparison c => c.symbol

/-- The kinds of words that a reader can miss. -/
inductive Kind where
  | unknown
  | comparison
  | stop
deriving DecidableEq

def Kind.name : Kind → String
  | .unknown => "var"
  | .comparison => "op"
  | .stop => "end"

end Token

/-- Why a text is no formula: a character that starts no word, or a word that does not
belong where it stands. No word stands for the end of the text. -/
inductive Misreading where
  | character (c : Char) (position : Nat)
  | missing (kind : Token.Kind) (found : Option Token)
  | noTerm (found : Option Token)
deriving DecidableEq

def Misreading.shown (found : Option Token) : String :=
  Text.quoted (match found with
    | some t => t.text
    | none => "end of input")

def Misreading.message : Misreading → String
  | .character c position =>
    "Unexpected character " ++ Text.quoted c.toString ++ " at position " ++ toString position
  | .missing kind found => "Expected " ++ kind.name ++ ", found " ++ shown found
  | .noTerm found => "Expected a number or variable, found " ++ shown found

/-! ## Cutting a text into words -/

/-- The literal at the front of a text, and the rest: digits with an optional point and
further digits, or a point with at least one digit. -/
def Literal.split (cs : List Char) : Option (Literal × List Char) :=
  let whole := cs.takeWhile Text.isDigit
  match cs.dropWhile Text.isDigit with
  | '.' :: rest =>
    let places := rest.takeWhile Text.isDigit
    if whole = [] ∧ places = [] then none
    else some (⟨whole, true, places⟩, rest.dropWhile Text.isDigit)
  | rest => if whole = [] then none else some (⟨whole, false, []⟩, rest)

/-- A word of one or two signs at the front of a text, and the rest. The longer word is
taken where both fit. -/
def Token.splitSign : List Char → Option (Token × List Char)
  | 'x' :: rest => some (.unknown .x, rest)
  | 'y' :: rest => some (.unknown .y, rest)
  | '+' :: rest => some (.plus, rest)
  | '-' :: rest => some (.minus, rest)
  | '*' :: rest => some (.times, rest)
  | '<' :: '=' :: rest => some (.comparison .le, rest)
  | '>' :: '=' :: rest => some (.comparison .ge, rest)
  | '!' :: '=' :: rest => some (.comparison .ne, rest)
  | '<' :: rest => some (.comparison .lt, rest)
  | '>' :: rest => some (.comparison .gt, rest)
  | '=' :: rest => some (.comparison .eq, rest)
  | _ => none

/-- The word at the front of a text, and the rest. -/
def Token.split (cs : List Char) : Option (Token × List Char) :=
  match Literal.split cs with
  | some (l, rest) => some (.number l, rest)
  | none => Token.splitSign cs

/-- A literal takes at least one character. -/
theorem Literal.split_shorter {cs rest : List Char} {l : Literal}
    (h : Literal.split cs = some (l, rest)) : rest.length < cs.length := by
  have all := congrArg List.length (List.takeWhile_append_dropWhile (p := Text.isDigit) (l := cs))
  rw [List.length_append] at all
  unfold Literal.split at h
  simp only at h
  split at h
  · next tail ht =>
    split at h
    · simp at h
    · simp only [Option.some.injEq, Prod.mk.injEq] at h
      rw [ht, List.length_cons] at all
      have := (List.dropWhile_sublist Text.isDigit (l := tail)).length_le
      rw [← h.2]
      omega
  · split at h
    · simp at h
    · next hw =>
      simp only [Option.some.injEq, Prod.mk.injEq] at h
      have := List.length_pos_iff.2 hw
      rw [← h.2]
      omega

/-- Every word takes at least one character. -/
theorem Token.split_shorter {cs rest : List Char} {t : Token}
    (h : Token.split cs = some (t, rest)) : rest.length < cs.length := by
  unfold Token.split at h
  split at h
  · next hl =>
    simp only [Option.some.injEq, Prod.mk.injEq] at h
    rw [← h.2]
    exact Literal.split_shorter hl
  · unfold Token.splitSign at h
    split at h <;> simp at h <;> (rw [← h.2]; simp only [List.length_cons]; omega)

/-- The words of a text whose first character stands at `position`. -/
def Token.scan (position : Nat) (cs : List Char) : Except Misreading (List Token) :=
  match cs with
  | [] => .ok []
  | c :: tail =>
    match h : Token.split (c :: tail) with
    | none => .error (.character c position)
    | some (t, rest) =>
      have : rest.length < (c :: tail).length := Token.split_shorter h
      (Token.scan (position + ((c :: tail).length - rest.length)) rest).map (t :: ·)
termination_by cs.length
decreasing_by exact this

/-- The words of a text, in its normal spelling. -/
def tokens (text : String) : Except Misreading (List Token) :=
  Token.scan 0 (normalChars text.toList)

end HalfPlane.Formula
