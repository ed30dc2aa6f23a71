import SceneLink.Scene.Error
import SceneLink.Json.Printer

namespace SceneLink

abbrev Handle := Nat

inductive Node where
  | value (json : Json)
  | object (handle : Handle)

instance : Inhabited Node := ⟨.value .null⟩

structure Vec3 where
  x : Double
  y : Double
  z : Double
deriving DecidableEq

namespace Vec3

def origin : Vec3 := ⟨0, 0, 0⟩

def ones : Vec3 := ⟨1, 1, 1⟩

def sub (a b : Vec3) : Vec3 := ⟨a.x - b.x, a.y - b.y, a.z - b.z⟩

def toJson (v : Vec3) : Json := .arr [Json.ofDouble v.x, Json.ofDouble v.y, Json.ofDouble v.z]

def ofJson? : Json → Option Vec3
  | .arr [x, y, z] => do
    let x ← x.double?
    let y ← y.double?
    let z ← z.double?
    return ⟨x, y, z⟩
  | _ => none

end Vec3

-- The type of plain data as messages name it.
def Json.kindName : Json → String
  | .null => "null"
  | .bool _ => "boolean"
  | .num _ => "number"
  | .str _ => "string"
  | .arr _ => "array"
  | .obj _ => "record"

namespace Node

def null : Node := .value .null

def json? : Node → Option Json
  | value json => some json
  | object _ => none

def isNull : Node → Bool
  | value .null => true
  | _ => false

-- Plain data is compared by value and objects by identity.
def same : Node → Node → Bool
  | value a, value b => a.same b
  | object a, object b => a = b
  | _, _ => false

-- The value that `read` makes of plain data, or the mismatch.
def expect {α : Type} (found : Node → String) (expected : String) (read : Json → Option α)
    (node : Node) : Except AccessError α :=
  match node.json?.bind read with
  | some a => .ok a
  | none => .error (.typeMismatch expected (found node))

-- A live object cannot stand inside data. `found` names the type of a node for the failure.
def toValue (found : Node → String) (node : Node) : Except AccessError Json :=
  node.expect found "plain value" some

def toDouble (found : Node → String) (node : Node) : Except AccessError Double :=
  node.expect found "number" Json.double?

def toBool (found : Node → String) (node : Node) : Except AccessError Bool :=
  node.expect found "boolean" Json.bool?

def toText (found : Node → String) (node : Node) : Except AccessError String :=
  node.expect found "string" Json.str?

def toVec3 (found : Node → String) (node : Node) : Except AccessError Vec3 :=
  node.expect found "[x, y, z]" Vec3.ofJson?

end Node

end SceneLink
