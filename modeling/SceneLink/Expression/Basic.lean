import SceneLink.Path.Basic
import SceneLink.Json.Record

namespace SceneLink

inductive Constraint where
  -- Either bound may be missing.
  | clamp (min max : Option Double)
  -- To a number of decimal digits, none if missing.
  | round (digits : Option Nat)
  -- Of a string in characters, or of an array.
  | maxLength (length : Nat)
  -- The value takes the place of every pair of braces.
  | format (template : String)
deriving DecidableEq

structure Change where
  op : String
  value : Json := .null
  constraints : List Constraint := []
  -- Whether the caller wants to hear the value written.
  report : Bool := false

inductive Expression where
  | literal (value : Json)
  | reference (path : Path)
  | change (change : Change)

inductive Operator where
  | set | add | subtract | multiply | divide | min | max | append | prepend | remove | toggle
deriving DecidableEq

def Operator.ofName? : String → Option Operator
  | "set" => some set
  | "add" => some add
  | "subtract" | "sub" => some subtract
  | "multiply" | "mul" => some multiply
  | "divide" | "div" => some divide
  | "min" => some min
  | "max" => some max
  | "append" => some append
  | "prepend" => some prepend
  | "remove" => some remove
  | "toggle" => some toggle
  | _ => none

inductive Malformed where
  | shape
  | referenceNotText
  | badReference (cause : ParseError)
deriving DecidableEq

inductive ExpressionError where
  | unknownOperator (op : String)
  | typeMismatch (op current operand : String)
  | divisionByZero
  | notANumber (op : String)
  | malformed (cause : Malformed)
deriving DecidableEq

def Malformed.message : Malformed → String
  | shape => "not a change"
  | referenceNotText => "`_path_` must be a string"
  | badReference cause => cause.message

def ExpressionError.message : ExpressionError → String
  | unknownOperator op => s!"unknown expression op `{op}`"
  | typeMismatch op current operand => s!"op `{op}` cannot combine {current} with {operand}"
  | divisionByZero => "division by zero"
  | notANumber op => s!"op `{op}` produced a non-numeric result"
  | malformed cause => s!"malformed expression: {cause.message}"

namespace Constraint

def digits? (json : Json) : Option Nat := json.nat?.filter (· < 2 ^ 32)

def ofFields? (tag : String) (body : Json) : Option Constraint :=
  match tag with
  | "clamp" => do
    let fields ← body.record? ["min", "max"]
    let min ← fields.optional "min" Json.double?
    let max ← fields.optional "max" Json.double?
    return clamp min max
  | "round" => do
    let fields ← body.record? ["digits"]
    let digits ← fields.optional "digits" digits?
    return round digits
  | "maxLength" => do
    let fields ← body.record? ["length"]
    let length ← fields.required "length" Json.nat?
    return maxLength length
  | "format" => do
    let fields ← body.record? ["template"]
    let template ← fields.required "template" Json.str?
    return format template
  | _ => none

-- The tag is the field `type` of an object, or the first item of an array.
def ofJson? : Json → Option Constraint
  | .obj fields => (Dict.get? fields "type").bind fun tag =>
    tag.str?.bind fun tag => ofFields? tag (.obj fields)
  | .arr (.str tag :: rest) => ofFields? tag (.arr rest)
  | _ => none

def toJson : Constraint → Json
  | clamp min max => Json.ofFields (("type", .str "clamp") ::
      (Json.present "min" (min.map Json.ofFloat) ++ Json.present "max" (max.map Json.ofFloat)))
  | round digits => Json.ofFields (("type", .str "round") ::
      Json.present "digits" (digits.map Json.ofNat))
  | maxLength length => Json.ofFields [("type", .str "maxLength"), ("length", Json.ofNat length)]
  | format template => Json.ofFields [("type", .str "format"), ("template", .str template)]

end Constraint

namespace Change

def ofJson? (json : Json) : Option Change := do
  let fields ← json.record? ["op", "value", "constraints", "reportUpdate"]
  let op ← fields.required "op" Json.str?
  let value ← fields.withDefault "value" .null some
  let constraints ← fields.withDefault "constraints" [] (Json.listOf? Constraint.ofJson?)
  let report ← fields.withDefault "reportUpdate" false Json.bool?
  return { op, value, constraints, report }

-- Fields that hold their defaults are left out.
def toJson (change : Change) : Json := Json.ofFields (
  [("op", .str change.op)]
    ++ (if change.value.isNull then [] else [("value", change.value)])
    ++ (if change.constraints = [] then []
      else [("constraints", .arr (change.constraints.map Constraint.toJson))])
    ++ (if change.report then [("reportUpdate", .bool true)] else []))

-- A change is refused if its operation is unknown.
def read (json : Json) : Except ExpressionError Change :=
  match ofJson? json with
  | none => .error (.malformed .shape)
  | some change =>
    match Operator.ofName? change.op with
    | some _ => .ok change
    | none => .error (.unknownOperator change.op)

end Change

namespace Expression

def readReference : Json → Except ExpressionError Expression
  | .str text => match Path.parse text with
    | .ok path => .ok (reference path)
    | .error cause => .error (.malformed (.badReference cause))
  | _ => .error (.malformed .referenceNotText)

-- Reads an expression from data: an object with the single field `_expr_` is a change, one with the
-- single field `_path_` is a reference, and all else stands for itself.
def ofJson : Json → Except ExpressionError Expression
  | .obj [(name, inner)] =>
    if name = "_expr_" then (Change.read inner).map change
    else if name = "_path_" then readReference inner
    else .ok (literal (.obj [(name, inner)]))
  | json => .ok (literal json)

def toJson : Expression → Json
  | literal value => value
  | reference path => .obj [("_path_", .str path.text)]
  | change c => .obj [("_expr_", c.toJson)]

def report : Expression → Bool
  | change c => c.report
  | _ => false

end Expression

end SceneLink
