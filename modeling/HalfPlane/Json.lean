/-
Values in the notation of JSON, written without blanks.

Numbers keep the text of a double or of an integer; an infinity or a missing number
has a word of its own. Only quotes, backslashes and controls are escaped.
-/
import HalfPlane.Fault
import HalfPlane.Text.Quoted

namespace HalfPlane

/-- A value that can be written in JSON. -/
inductive Json where
  | null
  | bool (b : Bool)
  | whole (n : Int)
  | number (n : Numeral)
  | text (s : String)
  | list (items : List Json)
  | object (fields : List (String × Json))
deriving Inhabited

namespace Json

def escaped (c : Char) : List Char :=
  if c = '"' ∨ c = '\\' then ['\\', c]
  else if c = '\n' then ['\\', 'n']
  else if c = '\r' then ['\\', 'r']
  else if c = '\t' then ['\\', 't']
  else if c.toNat = 8 then ['\\', 'b']
  else if c.toNat = 12 then ['\\', 'f']
  else if c.toNat < 32 then '\\' :: 'u' :: Text.hexCode 4 c.toNat
  else [c]

def writeText (s : String) : String :=
  String.ofList ('"' :: s.toList.flatMap escaped ++ ['"'])

def writeNumber : Numeral → String
  | .notANumber => "NaN"
  | .infinite negative => if negative then "-Infinity" else "Infinity"
  | n => n.shortest

mutual

def write : Json → String
  | .null => "null"
  | .bool b => if b then "true" else "false"
  | .whole n => toString n
  | .number n => writeNumber n
  | .text s => writeText s
  | .list items => "[" ++ ",".intercalate (writeAll items) ++ "]"
  | .object fields => "\x7b" ++ ",".intercalate (writeFields fields) ++ "\x7d"

def writeAll : List Json → List String
  | [] => []
  | item :: rest => write item :: writeAll rest

def writeFields : List (String × Json) → List String
  | [] => []
  | (key, value) :: rest => (writeText key ++ ":" ++ write value) :: writeFields rest

end

end Json
end HalfPlane
