/-
What a command line asks for.

The texts of the inequalities stand in one group of plain words, anywhere between the
options. Points and answers add up, and of any other option the last one counts. An
option that is given two bare dashes for its value stands without one; that is refused
only where the value is wanted.
-/
import HalfPlane.Command.Word
import HalfPlane.Decimal.Reading
import HalfPlane.View

namespace HalfPlane.Command

/-- How much is told about a run. -/
inductive Level where
  | debug
  | info
  | warning
deriving DecidableEq

namespace Level

def name : Level → String
  | .debug => "DEBUG"
  | .info => "INFO"
  | .warning => "WARNING"

def rank : Level → Nat
  | .debug => 0
  | .info => 1
  | .warning => 2

def ofName? (s : String) : Option Level := [.debug, .info, .warning].find? (·.name = s)

end Level

/-- What a command line asks for. The value of an option without one is `none`. -/
structure Settings (α : Type) where
  texts : List String
  demo : Bool
  claims : Bool
  points : List (Option String)
  answers : List (Option String)
  /-- The file for the picture, if the option is there. -/
  out : Option (Option String)
  width : Option Int
  height : Option Int
  zoom : Option α
  json : Bool
  preview : Bool
  level : Option Level

namespace Settings
variable {α : Type} [Scalar α]

def standard : Settings α :=
  { texts := [], demo := false, claims := true, points := [], answers := [], out := none
    width := some View.standardWidth, height := some View.standardHeight
    zoom := some View.standardZoom, json := false, preview := false, level := some .warning }

/-- What an option that takes no value asks for. -/
def flag? (s : Settings α) : Key → Option (Settings α)
  | .demo => some { s with demo := true }
  | .json => some { s with json := true }
  | .preview => some { s with preview := true }
  | _ => none

/-- What an option asks for with a value, if the value is a good one. -/
def set? [Readable α] (s : Settings α) (key : Key) (value : String) : Option (Settings α) :=
  match key with
  | .choose =>
    if value = "auto" then some { s with claims := true }
    else if value = "none" then some { s with claims := false }
    else none
  | .point => some { s with points := s.points ++ [some value] }
  | .vertexAnswer => some { s with answers := s.answers ++ [some value] }
  | .out => some { s with out := some (some value) }
  | .width => (Decimal.readWhole value).map fun n => { s with width := some n }
  | .height => (Decimal.readWhole value).map fun n => { s with height := some n }
  | .zoom => (Decimal.read? value).map fun z => { s with zoom := some z }
  | .logLevel => (Level.ofName? value).map fun level => { s with level := some level }
  | _ => none

/-- What an option asks for that stands without its value. -/
def leave (s : Settings α) : Key → Settings α
  | .choose => { s with claims := false }
  | .point => { s with points := s.points ++ [none] }
  | .vertexAnswer => { s with answers := s.answers ++ [none] }
  | .out => { s with out := some none }
  | .width => { s with width := none }
  | .height => { s with height := none }
  | .zoom => { s with zoom := none }
  | .logLevel => { s with level := none }
  | _ => s

/-- Where the reader stands with respect to the group of plain words. -/
inductive Place where
  | before
  | within
  | behind
deriving DecidableEq

/-- The group of plain words is over once an option follows it. -/
def Place.pass : Place → Place
  | .within => .behind
  | p => p

def setting [Readable α] (s : Settings α) (key : Key) (value : String) :
    Except Refusal (Settings α) :=
  match s.set? key value with
  | some s => .ok s
  | none => .error .usage

/-- Whether the short option for help is well formed with this behind it: the same option
again, any number of times. -/
def mayFollowHelp (cs : List Char) : Bool := cs ≠ [] && cs.all (· = 'h')

/-- Read words one after another. A word out of place spoils the command line, but only
after everything else has been read. -/
def collect [Readable α] (s : Settings α) (place : Place) (spoilt : Bool) :
    List Word → Except Refusal (Settings α)
  | [] => if spoilt then .error .usage else .ok s
  | .plain text :: rest =>
    match place with
    | .behind => collect s .behind true rest
    | _ => collect { s with texts := s.texts ++ [text] } .within spoilt rest
  | .stop :: rest =>
    match place with
    | .behind => collect s .behind true rest
    | _ => collect s .within spoilt rest
  | .stray :: rest => collect s place.pass true rest
  | .shortHelp rest :: _ => if mayFollowHelp rest then .error .help else .error .usage
  | .option .help none :: _ => .error .help
  | .option key none :: rest =>
    match s.flag? key with
    | some s => collect s place.pass spoilt rest
    | none =>
      match rest with
      | .plain value :: rest =>
        match s.setting key value with
        | .error e => .error e
        | .ok s => collect s place.pass spoilt rest
      | _ => .error .usage
  | .option key (some value) :: rest =>
    match s.flag? key with
    | some _ => .error .usage
    | none =>
      if key = .help then .error .usage
      else if value = "--" then collect (s.leave key) place.pass spoilt rest
      else
        match s.setting key value with
        | .error e => .error e
        | .ok s => collect s place.pass spoilt rest

def ofArguments [Readable α] (arguments : List String) : Except Refusal (Settings α) := do
  collect standard .before false (← Word.ofTexts arguments)

end Settings
end HalfPlane.Command
