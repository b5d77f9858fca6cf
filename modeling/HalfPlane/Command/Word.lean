/-
The words of a command line: options, their values, and plain words.

A word that starts with a dash is an option, given whole, by a beginning that fits one
name only, or with its value after an equals sign. It is a plain word after all if it is
a negative number, or holds a space. Behind two bare dashes every word is plain.
-/
import HalfPlane.Text.Blank

namespace HalfPlane.Command

/-- The options of the command. -/
inductive Key where
  | help
  | demo
  | choose
  | point
  | vertexAnswer
  | out
  | width
  | height
  | zoom
  | json
  | preview
  | logLevel
deriving DecidableEq

namespace Key

def all : List Key :=
  [.help, .demo, .choose, .point, .vertexAnswer, .out, .width, .height, .zoom, .json, .preview,
   .logLevel]

def name : Key → String
  | .help => "--help"
  | .demo => "--demo"
  | .choose => "--choose"
  | .point => "--point"
  | .vertexAnswer => "--vertex-answer"
  | .out => "--out"
  | .width => "--width"
  | .height => "--height"
  | .zoom => "--zoom"
  | .json => "--json"
  | .preview => "--preview"
  | .logLevel => "--log-level"

/-- The option with exactly this name. -/
def ofName? (s : String) : Option Key := all.find? (·.name = s)

/-- The options whose names begin like this. -/
def beginning (s : String) : List Key := all.filter fun k => s.toList.isPrefixOf k.name.toList

end Key

/-- Why a command line is not carried out. -/
inductive Refusal where
  /-- It is not well formed. -/
  | usage
  | help
deriving DecidableEq

/-- A word of a command line. -/
inductive Word where
  | plain (s : String)
  | stop
  | option (key : Key) (value : Option String)
  /-- The short option that asks for help, and what is behind it in the same word. -/
  | shortHelp (rest : List Char)
  /-- It looks like an option and is none. -/
  | stray
deriving DecidableEq

namespace Word

/-- What stands before the first equals sign, and what after it. -/
def splitValue (s : String) : String × Option String :=
  let cs := s.toList
  match cs.dropWhile (· ≠ '=') with
  | [] => (s, none)
  | _ :: value => (String.ofList (cs.takeWhile (· ≠ '=')), some (String.ofList value))

/-- Whether a word is a minus and digits, perhaps with a point before the last ones. A
line break may follow. -/
def isNegativeNumber : List Char → Bool
  | '-' :: cs =>
    let cs := if cs.getLast? = some '\n' then cs.dropLast else cs
    match cs.dropWhile Text.isDigit with
    | [] => cs ≠ []
    | '.' :: places => places ≠ [] && places.all Text.isDigit
    | _ => false
  | _ => false

/-- A word that starts with a dash and is no option: a plain word after all, or none. -/
def plainOrStray (s : String) : Word :=
  if isNegativeNumber s.toList || s.toList.contains ' ' then .plain s else .stray

/-- A word with two dashes in front that is no exact name: the option it begins. -/
def ofBeginning (s : String) : Except Refusal Word :=
  let (start, value) := splitValue s
  match Key.beginning start with
  | [] => .ok (plainOrStray s)
  | [key] => .ok (.option key value)
  | _ => .error .usage

/-- A word with a dash and `tail` behind it, which is not an option's whole name. -/
def ofDashed (s : String) (tail : List Char) : Except Refusal Word :=
  let (start, value) := splitValue s
  match value, Key.ofName? start with
  | some value, some key => .ok (.option key (some value))
  | _, _ =>
    match tail with
    | '-' :: _ => ofBeginning s
    | 'h' :: '=' :: rest => .ok (.shortHelp rest)
    | 'h' :: rest => .ok (.shortHelp rest)
    | _ => .ok (plainOrStray s)

def ofText (s : String) : Except Refusal Word :=
  match s.toList with
  | '-' :: tail =>
    if s = "-h" then .ok (.option .help none)
    else if tail = [] then .ok (.plain s)
    else
      match Key.ofName? s with
      | some key => .ok (.option key none)
      | none => ofDashed s tail
  | _ => .ok (.plain s)

def ofTexts : List String → Except Refusal (List Word)
  | [] => .ok []
  | s :: rest => do
    if s = "--" then return .stop :: rest.map .plain
    else return (← ofText s) :: (← ofTexts rest)

end Word
end HalfPlane.Command
