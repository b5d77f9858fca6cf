/-
Handing out the colours of a palette: none again before all have been used.
-/
namespace HalfPlane

/-- A palette of at least one colour, and the colours in use. -/
structure Colors where
  first : String
  others : List String
  used : List String
deriving DecidableEq

namespace Colors

def palette (c : Colors) : List String := c.first :: c.others

/-- All colours of a palette, none in use. An empty palette has none to give. -/
def ofPalette? : List String → Option Colors
  | [] => none
  | first :: others => some ⟨first, others, []⟩

def restart (c : Colors) : Colors := { c with used := [] }

/-- The first colour that is not in use. Once as many are in use as the palette is long,
or every colour of it is, the palette starts over. -/
def next (c : Colors) : String × Colors :=
  let c := if c.palette.length ≤ c.used.length then c.restart else c
  match c.palette.find? fun color => !c.used.contains color with
  | some color => (color, { c with used := c.used ++ [color] })
  | none => (c.first, { c with used := [c.first] })

end Colors
end HalfPlane
