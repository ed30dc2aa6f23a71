import SceneLink.Json.Printer
import SceneLink.Json.Reader
import SceneLink.Text.Blank

namespace SceneLink

inductive Literal where
  | string | float | integer | boolean | null | json
deriving DecidableEq

inductive StepKind where
  | member
  | component
  | transform
  | index
  | map
  | resource
  | object
  | method
  | literal (type : Literal)
  | unknown (tag : String)
deriving DecidableEq

structure Step where
  kind : StepKind
  -- What stands after the tag, without the modifiers.
  value : String
  -- A failure of a conditional step reads as null, and skips a write.
  conditional : Bool := false
  -- The value of an excited step is evaluated.
  excited : Bool := false
deriving DecidableEq

namespace Literal

def name : Literal → String
  | string => "string"
  | float => "float"
  | integer => "integer"
  | boolean => "boolean"
  | null => "null"
  | json => "json"

def readBool? (raw : String) : Option Bool :=
  let word := String.ofList ((Text.trim raw.toList).map Text.lowerAscii)
  if word = "true" then some true else if word = "false" then some false else none

def readDouble? (raw : String) : Option Double := Text.double? (Text.trim raw.toList)

def readInt? (raw : String) : Option Int := Text.integer? (Text.trim raw.toList)

-- The value of the declared type that a text spells. A float has to be finite.
def read? (type : Literal) (raw : String) : Option Json :=
  match type with
  | string => some (.str raw)
  | float => match readDouble? raw with
    | some (.finite x) => some (.num (.float x))
    | _ => none
  | integer => (readInt? raw).map Json.ofInt
  | boolean => (readBool? raw).map Json.bool
  | null => some .null
  | json => Json.parse? raw

end Literal

namespace StepKind

def tags : Dict String StepKind := [
  ("string", literal .string), ("float", literal .float),
  ("integer", literal .integer), ("int", literal .integer),
  ("boolean", literal .boolean), ("bool", literal .boolean),
  ("null", literal .null), ("json", literal .json),
  ("index", index), ("jarray", index), ("array", index), ("list", index),
  ("map", map), ("dict", map), ("dictionary", map), ("jobject", map),
  ("transform", transform), ("component", component), ("resource", resource),
  ("member", member), ("field", member), ("property", member),
  ("object", object), ("method", method)]

-- The kind that a tag or one of its aliases names; any other tag is kept in lower case.
def ofTag (tag : String) : StepKind :=
  let lowered := String.ofList (tag.toList.map Text.lowerAscii)
  (tags.get? lowered).getD (unknown lowered)

def name : StepKind → String
  | member => "member"
  | component => "component"
  | transform => "transform"
  | index => "index"
  | map => "map"
  | resource => "resource"
  | object => "object"
  | method => "method"
  | literal type => type.name
  | unknown tag => tag

def isLiteral : StepKind → Bool
  | literal _ => true
  | _ => false

def isUnknown : StepKind → Bool
  | unknown _ => true
  | _ => false

end StepKind

namespace Step

def index? (step : Step) : Option Nat := Text.index? step.value.toList

def literal? (step : Step) : Option Json :=
  match step.kind with
  | .literal type => type.read? step.value
  | _ => none

def ofMember (name : String) : Step := { kind := .member, value := name }

def ofIndex (index : Nat) : Step :=
  { kind := .index, value := String.ofList (Nat.toDigits 10 index) }

end Step

end SceneLink
