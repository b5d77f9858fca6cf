/-
Calls written down: each as its name, its arguments and its options, so that a picture
can be kept and painted later.
-/
import HalfPlane.Drawing.Call
import HalfPlane.Json

namespace HalfPlane.Drawing
variable {α : Type} [Exact α]

mutual

def Value.toJson : Value α → Json
  | .number x => .number (Exact.numeral x)
  | .text s => .text s
  | .flag b => .bool b
  | .list items => .list (Value.allToJson items)
  | .patch shape arguments options =>
    .object
      [("patch", .text shape), ("arguments", .list (Value.allToJson arguments)),
        ("options", .object (Value.optionsToJson options))]

def Value.allToJson : List (Value α) → List Json
  | [] => []
  | v :: rest => v.toJson :: Value.allToJson rest

def Value.optionsToJson : List (String × Value α) → List (String × Json)
  | [] => []
  | (name, v) :: rest => (name, v.toJson) :: Value.optionsToJson rest

end

def Call.toJson (c : Call α) : Json :=
  .list
    [.text c.name, .list (Value.allToJson c.arguments),
      .object (Value.optionsToJson c.options)]

def listing (calls : List (Call α)) : String :=
  String.join (calls.map fun c => c.toJson.write ++ "\n")

end HalfPlane.Drawing
