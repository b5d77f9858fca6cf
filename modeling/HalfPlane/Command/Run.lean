/-
A run of the command: a board is made, inequalities are cast and claimed, points are
checked, corners are named, and the board is drawn and shown.

A run keeps a transcript of what was printed, told and drawn, and ends early at the
first thing it cannot go on from. The drawing surface and the viewer are described by
what fails of them.
-/
import HalfPlane.Board.Lifetime
import HalfPlane.Board.Picture
import HalfPlane.Command.Journal
import HalfPlane.Drawing.Plan

namespace HalfPlane.Command

/-- What a run meets with: which calls fail and what for, the path of a picture that is
given none, and a viewer for pictures. -/
structure Surroundings (α : Type) where
  fails : Nat → Drawing.Call α → Bool
  failure : String
  temporary : String
  /-- Why the viewer cannot be loaded, if it cannot. -/
  loading : Option String
  /-- Why a picture cannot be opened, if it cannot. -/
  opening : Option String
  image : Drawing.Value α

/-- How a run ends. -/
inductive Ending where
  | done
  | stopped (message : String)
  | refused
  | helped
  | failed (f : Fault)

/-- What has happened in a run. -/
structure Transcript (α : Type) where
  board : Board α
  level : Level
  printed : List String
  told : List String
  drawn : List (Drawing.Call α)

/-- A transcript, and how the run ended if it did. -/
abbrev Step (α : Type) := Option Ending × Transcript α

namespace Transcript
variable {α : Type}

def print (t : Transcript α) (line : String) : Transcript α :=
  { t with printed := t.printed ++ [line] }

def tell (t : Transcript α) (entries : List Entry) : Transcript α :=
  { t with
    told := t.told ++ (entries.filter fun e => t.level.rank ≤ e.level.rank).map Entry.line }

def warn (t : Transcript α) (line : String) : Transcript α := { t with told := t.told ++ [line] }

def draw (t : Transcript α) (calls : List (Drawing.Call α)) : Transcript α :=
  { t with drawn := t.drawn ++ calls }

def go (t : Transcript α) : Step α := (none, t)

def finish (t : Transcript α) (e : Ending) : Step α := (some e, t)

def stop (t : Transcript α) (reason : String) : Step α := t.finish (.stopped ("Error: " ++ reason))

end Transcript

namespace Step
variable {α : Type}

/-- Go on with something else, unless the run has ended. -/
def next (s : Step α) (f : Transcript α → Step α) : Step α :=
  match s with
  | (none, t) => f t
  | ended => ended

end Step

namespace Transcript
variable {α : Type}

/-- Do the same for each element of a list, until the run ends. -/
def each {β : Type} (f : Transcript α → β → Step α) (t : Transcript α) : List β → Step α
  | [] => t.go
  | x :: rest => (f t x).next fun t => t.each f rest

variable [Coordinate α]

/-! ## Inequalities -/

def cast (t : Transcript α) (text : String) : Step α :=
  match t.board.add text with
  | (.error e, board) => { t with board }.finish (.failed e)
  | (.ok f, board) =>
    let t := { t with board }.tell (Journal.added t.board board text f)
    (t.print ((if f.ok then "✔ " else "✘ ") ++ text ++ ": " ++ f.message)).go

/-- Claim the right side of an inequality, if it has one and is not solved. -/
def claim (t : Transcript α) (q : Inequality α) : Step α :=
  match q.form.correctSide with
  | .error e => t.finish (.failed e)
  | .ok none => t.go
  | .ok (some side) =>
    if q.solution.isSolved then t.go
    else
      match t.board.chooseRegion q.label (some side.name) with
      | (.error e, board) => { t with board }.finish (.failed e)
      | (.ok f, board) =>
        let t := { t with board }.tell (Journal.claimed board q.label side f)
        (t.print (q.label ++ " [" ++ q.text ++ "]: " ++ f.message)).go

/-! ## Points and corners -/

def commaParts (text : String) : List String := (text.toList.splitOn ',').map String.ofList

def lacking (t : Transcript α) (key : Key) : Step α := t.finish (.failed (.noValue key.name))

def pointText (t : Transcript α) (text : String) : Step α :=
  match (commaParts text).map Text.trim with
  | [x, y] =>
    match (Decimal.read? x : Option α), (Decimal.read? y : Option α) with
    | some x, some y =>
      match t.board.check ⟨x, y⟩ with
      | (.error e, board) => { t with board }.finish (.failed e)
      | (.ok f, board) => ({ t with board }.print f.message).go
    | _, _ => t.stop ("--point expects numbers, got " ++ Text.quoted text)
  | _ => t.stop ("--point expects X,Y, got " ++ Text.quoted text)

/-- Check a point, if there is one. -/
def point (t : Transcript α) : Option String → Step α
  | none => t.lacking .point
  | some text => t.pointText text

/-- The index and the two coordinates of an answer, if it has a colon and two parts
behind it. -/
def splitAnswer (text : String) : Option (String × String × String) :=
  let cs := text.toList
  match cs.dropWhile (· ≠ ':') with
  | [] => none
  | _ :: rest =>
    match commaParts (String.ofList rest) with
    | [x, y] => some (String.ofList (cs.takeWhile (· ≠ ':')), x, y)
    | _ => none

/-- Select a corner, unless it is selected already. -/
def select (t : Transcript α) (index : Int) : Step α :=
  if t.board.selected.map Int.ofNat = some index then t.go
  else
    match t.board.select index with
    | (.error (.noSuchVertex _), board) =>
      { t with board }.stop
        ("no feasible vertex " ++ toString index ++ " (found " ++
          toString board.vertices.length ++ ").")
    | (.error e, board) => { t with board }.finish (.failed e)
    | (.ok f, board) => ({ t with board }.tell (Journal.selected index f)).go

def submit (t : Transcript α) (index : Int) (x y : String) : Step α :=
  match t.board.submit x y with
  | (.error e, board) => { t with board }.finish (.failed e)
  | (.ok f, board) =>
    let t := { t with board }.tell (Journal.submitted t.board f)
    (t.print ("vertex " ++ toString index ++ ": " ++ f.message)).go

/-- Name the coordinates of a corner, given by its index. -/
def answerText (t : Transcript α) (text : String) : Step α :=
  match splitAnswer text with
  | none => t.stop ("--vertex-answer expects I:X,Y, got " ++ Text.quoted text)
  | some (index, x, y) =>
    match Decimal.readWhole index with
    | none =>
      t.stop ("--vertex-answer index must be an integer, got " ++ Text.quoted index)
    | some index => (t.select index).next fun t => t.submit index x y

/-- Name the coordinates of a corner, if there are any. -/
def answer (t : Transcript α) : Option String → Step α
  | none => t.lacking .vertexAnswer
  | some text => t.answerText text

/-! ## The picture -/

def isFinite (x : α) : Bool :=
  match Exact.numeral x with
  | .finite _ _ => true
  | _ => false

/-- The marks of the board, whose window has to be of finite size. -/
def marks (t : Transcript α) : Except Fault (List (Mark α)) :=
  if isFinite t.board.view.width && isFinite t.board.view.height then t.board.scene
  else .error .integerTooLarge

/-- Draw the board into a file. A file without a name is missed only once everything is
drawn. -/
def picture (s : Surroundings α) (path : Option String) (t : Transcript α) : Step α :=
  match t.marks with
  | .error e => t.finish (.failed e)
  | .ok marks =>
    match Drawing.picture s.fails marks t.board.view.width t.board.view.height path with
    | .error e => t.finish (.failed e)
    | .ok outcome =>
      let t := t.draw outcome.calls
      if outcome.completed then
        match path with
        | none => t.lacking .out
        | some path => (t.tell (Journal.rendered marks.length path)).go
      else t.stop s.failure

/-- The calls that show a picture which has been opened. -/
def showing (image : Drawing.Value α) : List (Drawing.Call α) :=
  [⟨"convert", [.text "RGBA"], []⟩, ⟨"subplots", [], []⟩, ⟨"imshow", [image], []⟩,
    ⟨"axis", [.text "off"], []⟩, ⟨"show", [], []⟩]

def noPreview (reason : String) : String := "⚠️ Could not preview plane image" ++ reason

/-- Show a picture. Whatever fails is only told. -/
def preview (s : Surroundings α) (path : String) (t : Transcript α) : Transcript α :=
  match s.loading, s.opening with
  | some reason, _ => t.warn (noPreview ("; missing dependency: " ++ reason))
  | none, some reason => t.warn (noPreview (": " ++ reason))
  | none, none =>
    let shown := (Drawing.attempt (Drawing.failing s.fails) 0 (showing s.image)).outcome
    let t := t.draw (⟨"open", [.text path], []⟩ :: shown.calls)
    if shown.completed then t else t.warn (noPreview (": " ++ s.failure))

def namesFile (settings : Settings α) : Bool := settings.out.any fun path => path.any (· ≠ "")

def picturePath (s : Surroundings α) (settings : Settings α) : Option String :=
  match settings.out with
  | none => some s.temporary
  | some path => path.map Drawing.plainPath

/-- Show a picture that has been drawn into a file, as far as the settings ask for it. -/
def exhibitFile (s : Surroundings α) (settings : Settings α) (path : String)
    (t : Transcript α) : Transcript α :=
  let t := if namesFile settings then t.print ("✔ Plane written to " ++ path) else t
  if settings.preview then t.preview s path else t

/-- Draw and show the board as far as the settings ask for it. -/
def exhibit (s : Surroundings α) (settings : Settings α) (t : Transcript α) : Step α :=
  if namesFile settings || settings.preview then
    let path := picturePath s settings
    (t.picture s path).next fun t =>
      (path.elim t fun path => t.exhibitFile s settings path).go
  else t.go

end Transcript

/-! ## The whole run -/

def demonstration : List String := ["x + y - 4 <= 0", "x - y + 2 >= 0", "y >= 0", "x >= 0"]

section Whole
variable {α : Type} [Coordinate α]

/-- The value of an option, if there is one. -/
def wanted {β : Type} (key : Key) : Option β → Except Fault β
  | none => .error (.noValue key.name)
  | some value => .ok value

/-- Half of a whole number, unless it is out of range. -/
def half (n : Int) : Except Fault α :=
  let h : α := Readable.ofWritten (.decimal (n < 0) (5 * n.natAbs) (-1))
  match Exact.numeral h with
  | .finite _ _ => .ok h
  | _ => .error .quotientTooLarge

/-- An empty board with a window of whole pixels. -/
def boardOf (s : Settings α) : Except Fault (Board α) := do
  let width ← wanted .width s.width
  let x ← half width
  let height ← wanted .height s.height
  let y ← half height
  if width ≤ 0 ∨ height ≤ 0 then throw (.emptyViewport (toString width) (toString height))
  else
    let zoom ← wanted .zoom s.zoom
    let b ← Board.make (Scalar.ofInt width) (Scalar.ofInt height) zoom Register.standardPalette
      Board.standardDelay
    return { b with view := { b.view with origin := ⟨x, y⟩ } }

def endingOf : Fault → Ending
  | e@(.emptyViewport _ _) => .stopped ("Error: " ++ e.message)
  | e => .failed e

/-- The texts to cast: those of the demonstration first, if it is asked for. -/
def Settings.allTexts (s : Settings α) : List String :=
  (if s.demo then demonstration else []) ++ s.texts

/-- Claim the right side of every inequality on the board, if that is asked for. -/
def claimAll (s : Settings α) (t : Transcript α) : Step α :=
  if s.claims then t.each Transcript.claim t.board.inequalities else t.go

/-- A length in whole pixels. -/
def lengthJson : Option Int → Json
  | none => .null
  | some n => .whole n

/-- Print a snapshot, if that is asked for. The size of the window is in whole pixels. -/
def printSnapshot (s : Settings α) (t : Transcript α) : Step α :=
  if s.json then
    (t.print (t.board.snapshotSized (lengthJson s.width) (lengthJson s.height)).write).go
  else t.go

def carryOut (around : Surroundings α) (s : Settings α) (t : Transcript α) : Step α :=
  (((((t.each Transcript.cast s.allTexts).next (claimAll s)).next
    fun t => t.each Transcript.point s.points).next
    fun t => t.each Transcript.answer s.answers).next
    (Transcript.exhibit around s)).next
    (printSnapshot s)

/-- What came of a run. -/
structure Result (α : Type) where
  ending : Ending
  printed : List String
  told : List String
  drawn : List (Drawing.Call α)

def Result.early (e : Ending) : Result α := ⟨e, [], [], []⟩

/-- A run with settings that tells what is important enough for a level. -/
def runAt (level : Level) (around : Surroundings α) (s : Settings α) : Result α :=
  if s.allTexts = [] then .early (.stopped "Error: give at least one inequality or use --demo.")
  else
    match boardOf s with
    | .error e => .early (endingOf e)
    | .ok b =>
      let (ending, t) := carryOut around s ⟨b, level, [], [], []⟩
      ⟨ending.getD .done, t.printed, t.told, t.drawn⟩

def run (around : Surroundings α) (s : Settings α) : Result α :=
  match wanted .logLevel s.level with
  | .error e => .early (.failed e)
  | .ok level => runAt level around s

def runArguments (around : Surroundings α) (arguments : List String) : Result α :=
  match Settings.ofArguments arguments with
  | .error .usage => .early .refused
  | .error .help => .early .helped
  | .ok s => run around s

end Whole
end HalfPlane.Command
