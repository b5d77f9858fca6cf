/-
Why an operation can fail: one constructor per cause, and the words for each.
-/
import HalfPlane.Decimal.Shortest
import HalfPlane.Text.Quoted

namespace HalfPlane

/-- The causes of failure of the library's operations. -/
inductive Fault where
  | divisionByZero
  | unbounded (why : Numeral.Unbounded)
  | integerTooLarge
  | quotientTooLarge
  | emptyViewport (width height : String)
  | emptyZoomRange (low high : String)
  | noSuchOperator (symbol : String)
  | noSuchSide (name : Option String)
  | noRegion (label : String)
  | unknownLabel (label : String)
  | noSuchVertex (index : Int)
  | emptyPalette
  | emptyMemo
  | noDelay
  | noValue (option : String)
deriving DecidableEq

def Numeral.shortest (n : Numeral) : String := n.text Decimal.shortest

def Fault.message : Fault → String
  | .divisionByZero => "float division by zero"
  | .unbounded .infinite => "cannot convert float infinity to integer"
  | .unbounded .notANumber => "cannot convert float NaN to integer"
  | .integerTooLarge => "int too large to convert to float"
  | .quotientTooLarge => "integer division result too large for a float"
  | .emptyViewport width height => "Viewport must be positive, got " ++ width ++ "x" ++ height
  | .emptyZoomRange low high => "Invalid zoom range [" ++ low ++ ", " ++ high ++ "]"
  | .noSuchOperator symbol => Text.quoted symbol ++ " is not a valid Operator"
  | .noSuchSide (some name) => Text.quoted name ++ " is not a valid Side"
  | .noSuchSide none => "None is not a valid Side"
  | .noRegion label => label ++ " is an equation; it has no region to choose"
  | .unknownLabel label => label
  | .noSuchVertex index => "vertex index " ++ toString index ++ " out of range"
  | .emptyPalette => "palette must contain at least one colour"
  | .emptyMemo => "memo_size must be > 0"
  | .noDelay => "delay_ms must be > 0"
  | .noValue option => option ++ " stands without a value"

end HalfPlane
