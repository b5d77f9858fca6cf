/-
Lower case, as far as the letters `a` to `z` are concerned.

Besides the capital letters two characters have one of these letters in their lower case:
the Kelvin sign, which is a `k`, and the dotted capital I, which is an `i` and a dot above.
Every other character stands for itself, so a text is in lower case equal to an ASCII one
exactly when `lower` makes it so.
-/
namespace HalfPlane.Text

/-- The lower case of a character. -/
def lowerChar (c : Char) : List Char :=
  if c.toNat = 0x212A then ['k']
  else if c.toNat = 0x130 then ['i', Char.ofNat 0x307]
  else [c.toLower]

/-- The lower case of a text. -/
def lower (s : String) : String := String.ofList (s.toList.flatMap lowerChar)

end HalfPlane.Text
