/-
A text between quotes, as messages and log lines show it.

The quotes are single, unless the text holds a single quote and no double one. The
quote in use and the backslash are escaped, so are line breaks and tabs, and a
character that is not printable is given by its code.
-/
import HalfPlane.Text.Printable

namespace HalfPlane.Text

/-- A code in lower-case hexadecimal, with zeros in front up to `width`. -/
def hexCode (width n : Nat) : List Char :=
  let ds := Nat.toDigits 16 n
  List.replicate (width - ds.length) '0' ++ ds

def escaped (quote c : Char) : List Char :=
  if c = quote ∨ c = '\\' then ['\\', c]
  else if c = '\n' then ['\\', 'n']
  else if c = '\r' then ['\\', 'r']
  else if c = '\t' then ['\\', 't']
  else if isPrintable c then [c]
  else if c.toNat < 0x100 then '\\' :: 'x' :: hexCode 2 c.toNat
  else if c.toNat < 0x10000 then '\\' :: 'u' :: hexCode 4 c.toNat
  else '\\' :: 'U' :: hexCode 8 c.toNat

def quoted (s : String) : String :=
  let cs := s.toList
  let quote := if cs.contains '\'' && !cs.contains '"' then '"' else '\''
  String.ofList (quote :: cs.flatMap (escaped quote) ++ [quote])

end HalfPlane.Text
