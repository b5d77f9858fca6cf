/-
What a board says back: one constructor for each thing it can say, the words for it, and
whether it is good news.
-/
namespace HalfPlane

/-- What a board says back to a learner. -/
inductive Feedback where
  | blankText
  | unreadable
  | duplicate
  | added
  | correct
  | incorrect
  | removed (label : String)
  | chooseRegion (label : String)
  | deselected
  | alreadySolved
  | enterCoordinates
  | noActive
  | missingCoordinates
  | badNumber
  | graded (xOk yOk : Bool)
  | pointOk (x y : String)
  | pointBad (x y : String) (failed : List String)
  | reset
deriving DecidableEq

namespace Feedback

def message : Feedback → String
  | .blankText => "Please enter an inequality spell"
  | .unreadable => "Incorrect spell format. Try examples like: x+y<0, 2x-3y+1≥0, x>-2"
  | .duplicate => "This spell has already been cast"
  | .added => "Spell successfully cast!"
  | .correct => "Correct! Well done!"
  | .incorrect => "Incorrect, please try again!"
  | .removed label => "Spell " ++ label ++ " removed"
  | .chooseRegion label => "Choose the solution region for " ++ label
  | .deselected => ""
  | .alreadySolved => "This point has already been found."
  | .enterCoordinates => "Please enter the coordinates of the point:"
  | .noActive => "Select an intersection point first."
  | .missingCoordinates => "Please enter both x and y coordinates!"
  | .badNumber => "Coordinates must be numbers!"
  | .graded xOk yOk =>
    (if xOk then "x correct" else "x incorrect") ++ ", " ++
      if yOk then "y correct" else "y incorrect"
  | .pointOk x y =>
    "Magnificent! The point (" ++ x ++ ", " ++ y ++
      ") is indeed a magical solution to your system of inequalities."
  | .pointBad x y failed =>
    "Not quite. The point (" ++ x ++ ", " ++ y ++ ") does not satisfy: " ++
      ", ".intercalate failed
  | .reset => "The spell has been reset!"

def ok : Feedback → Bool
  | .added | .correct | .removed _ | .chooseRegion _ | .deselected | .alreadySolved
  | .enterCoordinates | .pointOk _ _ | .reset => true
  | _ => false

end Feedback
end HalfPlane
