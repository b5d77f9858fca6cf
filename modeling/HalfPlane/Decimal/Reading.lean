/-
Reading numbers that a person typed: coordinates and whole numbers.

Blanks around the number do not count, except for the information separators. Digits may
be of any script, and one low line may stand between two digits. A coordinate has an
optional sign, digits with or without a point, and an optional power of ten, or is a word
for an infinity or for no number at all, in letters of either case. Each reader takes the
whole text or refuses it.
-/
import HalfPlane.Scalar
import HalfPlane.Text.Blank

namespace HalfPlane.Decimal
open Text

/-- A blank that may stand around a number: any but an information separator. -/
def isMargin (c : Char) : Bool := isBlank c && !(28 ≤ c.toNat && c.toNat ≤ 31)

def withoutMargins (cs : List Char) : List Char :=
  ((cs.dropWhile isMargin).reverse.dropWhile isMargin).reverse

/-- A sign, if there is one: whether it is a minus, and the rest. -/
def splitSign : List Char → Bool × List Char
  | '-' :: rest => (true, rest)
  | '+' :: rest => (false, rest)
  | rest => (false, rest)

/-- The digits of a run at the front, and the rest. A low line belongs to the run when
digits stand on both sides of it. -/
def digitRun : List Char → List Char × List Char
  | [] => ([], [])
  | c :: '_' :: d :: rest =>
    if isDigit c then
      if isDigit d then
        let (run, rest) := digitRun (d :: rest)
        (c :: run, rest)
      else ([c], '_' :: d :: rest)
    else ([], c :: '_' :: d :: rest)
  | c :: rest =>
    if isDigit c then
      let (run, rest) := digitRun rest
      (c :: run, rest)
    else ([], c :: rest)

/-- A power of ten to the end of the text: nothing, or a mark, an optional sign and
digits. -/
def readPower : List Char → Option Int
  | [] => some 0
  | c :: rest =>
    if c = 'e' ∨ c = 'E' then
      let (negative, rest) := splitSign rest
      match digitRun rest with
      | ([], _) => none
      | (run, []) => some (if negative then -(digitsValue run : Int) else digitsValue run)
      | (_, _ :: _) => none
    else none

/-- Digits with an optional point and an optional power of ten. -/
def readMagnitude (negative : Bool) (cs : List Char) : Option Written :=
  let (whole, rest) := digitRun cs
  let (places, rest) :=
    match rest with
    | '.' :: rest => digitRun rest
    | rest => ([], rest)
  if whole = [] ∧ places = [] then none
  else (readPower rest).map fun power =>
    .decimal negative (digitsValue (whole ++ places)) (power - places.length)

def readWord (negative : Bool) (cs : List Char) : Option Written :=
  let word := String.ofList (cs.map Char.toLower)
  if word = "inf" ∨ word = "infinity" then some (.infinite negative)
  else if word = "nan" then some .notANumber
  else none

/-- A written number, whatever the blanks around it. -/
def readWritten (s : String) : Option Written :=
  let (negative, rest) := splitSign (withoutMargins s.toList)
  match readWord negative rest with
  | some word => some word
  | none => readMagnitude negative rest

def read? {α : Type} [Readable α] (s : String) : Option α :=
  (readWritten s).map Readable.ofWritten

/-- The digits that a whole number may have at most. -/
def wholeLimit : Nat := 4300

def readWhole (s : String) : Option Int :=
  let (negative, rest) := splitSign (withoutMargins s.toList)
  match digitRun rest with
  | ([], _) => none
  | (run, []) =>
    if run.length ≤ wholeLimit then
      some (if negative then -(digitsValue run : Int) else digitsValue run)
    else none
  | (_, _ :: _) => none

end HalfPlane.Decimal
