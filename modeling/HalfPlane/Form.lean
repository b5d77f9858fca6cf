/-
A line of the plane and the points on the wanted side of it: `a x + b y + c` compared
with zero.
-/
import HalfPlane.Scalar

namespace HalfPlane

/-- A comparison with zero. -/
inductive Operator where
  | lt
  | le
  | gt
  | ge
  | eq
deriving DecidableEq, Inhabited

namespace Operator

def symbol : Operator → String
  | .lt => "<"
  | .le => "<="
  | .gt => ">"
  | .ge => ">="
  | .eq => "="

def ofSymbol? (s : String) : Option Operator :=
  [.lt, .le, .gt, .ge, .eq].find? (·.symbol = s)

/-- Whether equality with zero is not enough. -/
def strict : Operator → Bool
  | .lt | .gt => true
  | _ => false

def lessType : Operator → Bool
  | .lt | .le => true
  | _ => false

def greaterType : Operator → Bool
  | .gt | .ge => true
  | _ => false

/-- The operator after both sides were multiplied by a negative number. -/
def reversed : Operator → Operator
  | .lt => .gt
  | .le => .ge
  | .gt => .lt
  | .ge => .le
  | .eq => .eq

end Operator

/-- One of the two half planes of a line. -/
inductive Side where
  | regionA
  | regionB
deriving DecidableEq, Inhabited

namespace Side

def name : Side → String
  | .regionA => "regionA"
  | .regionB => "regionB"

def ofName? (s : String) : Option Side := [.regionA, .regionB].find? (·.name = s)

/-- The side a name stands for, if there is one. -/
def ofName : Option String → Except Fault Side
  | none => .error (.noSuchSide none)
  | some s =>
    match ofName? s with
    | some side => .ok side
    | none => .error (.noSuchSide (some s))

/-- The factor of the line's normal that leads to the side. -/
def sign {α : Type} [Scalar α] : Side → α
  | .regionA => -1.0
  | .regionB => 1.0

end Side

/-- A point of the plane. -/
structure Point (α : Type) where
  x : α
  y : α

/-- A direction in the plane. -/
structure Direction (α : Type) where
  dx : α
  dy : α

def Direction.opposite {α : Type} [Scalar α] (d : Direction α) : Direction α := ⟨-d.dx, -d.dy⟩

/-- `a x + b y + c` compared with zero. -/
structure LinearForm (α : Type) where
  a : α
  b : α
  c : α
  operator : Operator

end HalfPlane
