/-
A memory of limited size that forgets what has not been touched for the longest time.
-/
namespace HalfPlane

/-- What is remembered under each text, the longest untouched first. -/
structure Memo (β : Type) where
  size : Nat
  entries : List (String × β)

namespace Memo
variable {β : Type}

def empty (size : Nat) : Memo β := ⟨size, []⟩

def without (text : String) (entries : List (String × β)) : List (String × β) :=
  entries.filter fun e => e.1 != text

/-- What is remembered under a text. A hit makes it the last one touched. -/
def lookup (m : Memo β) (text : String) : Option β × Memo β :=
  match m.entries.find? fun e => e.1 == text with
  | none => (none, m)
  | some e => (some e.2, { m with entries := without text m.entries ++ [e] })

/-- Remember a value under a text, and forget the longest untouched ones beyond the
size. -/
def store (m : Memo β) (text : String) (value : β) : Memo β :=
  let entries := without text m.entries ++ [(text, value)]
  { m with entries := entries.drop (entries.length - m.size) }

end Memo
end HalfPlane
