/-
Which drawing backend to use: the one in use already, a window where there is a screen,
or else one that only writes files. Names of backends are read in lower case.
-/
import HalfPlane.Text.LowerCase

namespace HalfPlane.Drawing

/-- What is known before a backend is chosen. -/
structure Surroundings where
  /-- The backend in use, if that can be told. -/
  current : Option String
  /-- The screen, if one is named. -/
  display : Option String
  /-- The backend that is asked for, if one is. -/
  wanted : Option String
  /-- Why windows are not available, if they are not. -/
  windowFailure : Option String

/-- The backend chosen, the ones that were tried on the way, and what was warned of. -/
structure Backend where
  name : String
  tried : List String
  warnings : List String
deriving DecidableEq

/-- What is warned of when windows are not available. -/
def fallbackWarning (reason : String) : String :=
  "Preferred GUI backend 'TkAgg' unavailable; falling back to 'Agg': " ++ reason

/-- Whether windows are preferred: there is a screen, or they are asked for. -/
def Surroundings.prefersWindows (s : Surroundings) : Bool :=
  s.display.any (· ≠ "") || s.wanted.any (Text.lower · = "tkagg")

def Backend.choose (s : Surroundings) : Backend :=
  let current := Text.lower (s.current.getD "")
  if current = "agg" ∨ current = "tkagg" then ⟨current, [], []⟩
  else if s.prefersWindows then
    match s.windowFailure with
    | none => ⟨"tkagg", ["TkAgg"], []⟩
    | some reason => ⟨"agg", ["TkAgg", "Agg"], [fallbackWarning reason]⟩
  else ⟨"agg", ["Agg"], []⟩

end HalfPlane.Drawing
