/-
The command itself. A run in a terminal is worked out first, and then printed, told and
kept: a picture is kept as the listing of its calls.
-/
import HalfPlane.Double
import HalfPlane.Command.Run
import HalfPlane.Drawing.Listing

namespace HalfPlane.Command

/-- A terminal: every call can be made, and there is no viewer. -/
def terminal : Surroundings Float :=
  { fails := fun _ _ => false
    failure := "cannot draw"
    temporary := "plane.png"
    loading := some "no viewer"
    opening := none
    image := .list [] }

def usage : String :=
  "usage: halfplane [--demo] [--choose auto|none] [--point X,Y] [--vertex-answer I:X,Y]\n" ++
  "                 [--out OUT] [--width WIDTH] [--height HEIGHT] [--zoom ZOOM] [--json]\n" ++
  "                 [--preview] [--log-level WARNING|INFO|DEBUG] [inequalities ...]"

def savedPath? (calls : List (Drawing.Call Float)) : Option String :=
  calls.findSome? fun c =>
    match c.name, c.arguments with
    | "savefig", [.text path] => some path
    | _, _ => none

/-- What is written for the one who ran the command at the end of a run, and the status
that the run leaves. -/
def Ending.report : Ending → List String × UInt32
  | .done => ([], 0)
  | .helped => ([usage], 0)
  | .refused => ([usage], 2)
  | .stopped message => ([message], 1)
  | .failed f => ([f.message], 1)

end HalfPlane.Command

open HalfPlane Command in
def main (arguments : List String) : IO UInt32 := do
  let r : Result Float := runArguments terminal arguments
  for line in r.printed do IO.println line
  for line in r.told do IO.eprintln line
  if let some path := savedPath? r.drawn then
    IO.FS.writeFile path (Drawing.listing r.drawn)
  for line in r.ending.report.1 do IO.eprintln line
  return r.ending.report.2
