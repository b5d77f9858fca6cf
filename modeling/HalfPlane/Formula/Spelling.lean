/-
One spelling for every way to type a formula.

Blanks go, look-alike signs become plain ones, and a run of signs becomes the one
sign it stands for. The respellings are applied one after another over the whole
text, so a later one sees what an earlier one wrote.
-/
import HalfPlane.Text.Blank

namespace HalfPlane.Formula

def replaceChar (old : Char) (new : List Char) (cs : List Char) : List Char :=
  cs.flatMap fun c => if c = old then new else [c]

/-- Replace every `p` directly followed by `q`, from the left and without overlap. -/
def replacePair (p q : Char) (new : List Char) : List Char → List Char
  | c :: d :: rest =>
    if c = p ∧ d = q then new ++ replacePair p q new rest
    else c :: replacePair p q new (d :: rest)
  | cs => cs

/-- Plain signs for look-alike ones, the usual order inside a comparison, and lower
case for the unknowns. -/
def respelled (cs : List Char) : List Char :=
  let cs := replaceChar '−' ['-'] cs
  let cs := replaceChar '≤' ['<', '='] cs
  let cs := replaceChar '≥' ['>', '='] cs
  let cs := replaceChar '≠' ['!', '='] cs
  let cs := replacePair '=' '>' ['>', '='] cs
  let cs := replacePair '=' '<' ['<', '='] cs
  let cs := replaceChar 'X' ['x'] cs
  replaceChar 'Y' ['y'] cs

/-- One round over adjacent signs: each of the four pairs in turn becomes one sign. -/
def signRound (cs : List Char) : List Char :=
  let cs := replacePair '-' '-' ['+'] cs
  let cs := replacePair '+' '-' ['-'] cs
  let cs := replacePair '-' '+' ['-'] cs
  replacePair '+' '+' ['+'] cs

/-- Rounds over adjacent signs until one changes nothing: a round that finds a pair
makes the text shorter. -/
def collapseSigns (cs : List Char) : List Char :=
  if (signRound cs).length < cs.length then collapseSigns (signRound cs) else cs
termination_by cs.length

/-- The spelling that the reader of formulas works on. -/
def normalChars (cs : List Char) : List Char :=
  collapseSigns (respelled (cs.filter fun c => !Text.isBlank c))

/-- The spelling of a text that the reader of formulas works on. -/
def normalize (text : String) : String := String.ofList (normalChars text.toList)

end HalfPlane.Formula
