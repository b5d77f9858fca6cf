/-
What a session keeps between texts: the next label, the colours in use, and the forms
of the texts read before.
-/
import HalfPlane.Form.Canonical
import HalfPlane.Form.Latex
import HalfPlane.Form.Plain
import HalfPlane.Inequality
import HalfPlane.Register.Colors
import HalfPlane.Register.Memo

namespace HalfPlane

/-- The labels given so far, the colours in use, and the memory of forms. -/
structure Register (α : Type) where
  initial : String
  labels : Nat
  colors : Colors
  memo : Memo (Option (LinearForm α))

namespace Register
variable {α : Type}

def standardPalette : List String :=
  ["#4e31aa", "#2c3e50", "#e74c3c", "#27ae60", "#f39c12", "#8e44ad", "#16a085", "#d35400",
   "#2980b9", "#c0392b", "#1abc9c", "#f1c40f"]

def standardInitial : String := "d"

def standardMemory : Int := 256

/-- A fresh register. It needs a colour and room for a text. -/
def make (palette : List String) (initial : String) (memory : Int) : Except Fault (Register α) :=
  match Colors.ofPalette? palette with
  | none => .error .emptyPalette
  | some colors =>
    if memory ≤ 0 then .error .emptyMemo
    else .ok ⟨initial, 0, colors, Memo.empty memory.toNat⟩

/-- The register of a board, with a palette of its own. -/
def ofPalette (palette : List String) : Except Fault (Register α) :=
  make palette standardInitial standardMemory

/-- Start the labels and the colours over. What has been read stays known. -/
def restart (r : Register α) : Register α :=
  { r with labels := 0, colors := r.colors.restart }

def label (r : Register α) (n : Nat) : String := r.initial ++ toString n

def nextLabel (r : Register α) : String × Register α :=
  (r.label (r.labels + 1), { r with labels := r.labels + 1 })

def nextColor (r : Register α) : String × Register α :=
  let (color, colors) := r.colors.next
  (color, { r with colors })

/-- What is remembered of a text. -/
def lookUp (r : Register α) (text : String) : Option (Option (LinearForm α)) × Register α :=
  let (found, memo) := r.memo.lookup text
  (found, { r with memo })

/-- Remember the form of a text, or that it has none. -/
def remember (r : Register α) (text : String) (form : Option (LinearForm α)) : Register α :=
  { r with memo := r.memo.store text form }

variable [Scalar α]

/-- The form of a text: from memory, or read and remembered. -/
def read (r : Register α) (text : String) : Option (LinearForm α) × Register α :=
  match r.lookUp text with
  | (some form, r) => (form, r)
  | (none, r) =>
    let form := LinearForm.ofText? text
    (form, r.remember text form)

/-- Give a form the next label and the next colour, and write it out. Both are used up
even if the form cannot be written. -/
def enter [Exact α] (r : Register α) (form : LinearForm α) :
    Except Fault (Inequality α) × Register α :=
  let (label, r) := r.nextLabel
  let (color, r) := r.nextColor
  let entry := form.plain.map fun text =>
    ⟨form, label, color, text, form.latex, .start form.operator⟩
  (entry, r)

/-- Read a text and enter its form, if it has one. -/
def readEntry [Exact α] (r : Register α) (text : String) :
    Except Fault (Option (Inequality α)) × Register α :=
  match r.read text with
  | (none, r) => (.ok none, r)
  | (some form, r) =>
    let (entry, r) := r.enter form
    (entry.map some, r)

end Register
end HalfPlane
