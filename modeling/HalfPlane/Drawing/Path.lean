/-
Paths of files in one spelling: no empty parts, no parts that stay where they are, and
no slash at the end.
-/
namespace HalfPlane.Drawing

/-- The slashes that a path starts with, as far as they matter: two and only two have a
meaning of their own. -/
def pathRoot (cs : List Char) : List Char :=
  match (cs.takeWhile (· = '/')).length with
  | 0 => []
  | 2 => ['/', '/']
  | _ => ['/']

def pathParts : List Char → List (List Char)
  | [] => [[]]
  | c :: rest =>
    match pathParts rest with
    | [] => [[c]]
    | part :: parts => if c = '/' then [] :: part :: parts else (c :: part) :: parts

def plainPath (path : String) : String :=
  let cs := path.toList
  let parts := (pathParts cs).filter fun part => part ≠ [] ∧ part ≠ ['.']
  let plain := pathRoot cs ++ ['/'].intercalate parts
  if plain = [] then "." else String.ofList plain

end HalfPlane.Drawing
