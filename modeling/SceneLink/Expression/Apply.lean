import SceneLink.Expression.Basic

namespace SceneLink

def Json.typeName : Json → String
  | .null => "null"
  | .bool _ => "boolean"
  | .num _ => "number"
  | .str _ => "string"
  | .arr _ => "array"
  | .obj _ => "object"

namespace Expression

def mismatch (op : String) (current operand : Json) : ExpressionError :=
  .typeMismatch op current.typeName operand.typeName

def settle (op : String) (x : Double) : Except ExpressionError Json :=
  if x.isNan then .error (.notANumber op) else .ok (Json.ofDouble x)

def arithmetic (op : String) (current operand : Json)
    (f : Double → Double → Except ExpressionError Double) : Except ExpressionError Json := do
  let a ← match current with
    | .null => pure Double.zero
    | .num n => pure n.toDouble
    | _ => throw (mismatch op current operand)
  let b ← match operand.double? with
    | some b => pure b
    | none => throw (mismatch op current operand)
  let x ← f a b
  settle op x

def divide (a b : Double) : Except ExpressionError Double :=
  if b.isZero then .error .divisionByZero else .ok (a / b)

def extend (op : String) (join : ∀ {α : Type}, [Append α] → α → α → α)
    (current operand : Json) : Except ExpressionError Json :=
  match current, operand with
  | .str a, .str b => .ok (.str (join a b))
  | .null, .str b => .ok (.str b)
  | .arr items, item => .ok (.arr (join items [item]))
  | .null, item => .ok (.arr [item])
  | _, _ => .error (mismatch op current operand)

def applyOperator (operator : Operator) (op : String) (current operand : Json) :
    Except ExpressionError Json :=
  match operator with
  | .set => .ok operand
  | .toggle => match current with
    | .bool b => .ok (.bool !b)
    | .null => .ok (.bool true)
    | _ => .error (mismatch op current operand)
  | .add => match current, operand with
    | .str a, .str b => .ok (.str (a ++ b))
    | .null, .str b => .ok (.str b)
    | _, _ => arithmetic op current operand fun a b => .ok (a + b)
  | .subtract => arithmetic op current operand fun a b => .ok (a - b)
  | .multiply => arithmetic op current operand fun a b => .ok (a * b)
  | .divide => arithmetic op current operand divide
  | .min => arithmetic op current operand fun a b => .ok (a.min b)
  | .max => arithmetic op current operand fun a b => .ok (a.max b)
  | .append => extend op (fun a b => a ++ b) current operand
  | .prepend => extend op (fun a b => b ++ a) current operand
  | .remove => match current, operand with
    | .arr items, item => .ok (.arr (items.filter fun other => !other.same item))
    | .obj fields, .str name => .ok (.obj (Dict.erase fields name))
    | _, _ => .error (mismatch op current operand)

end Expression

namespace Constraint

-- More digits than this would overflow the scale.
def maxDigits : Nat := 300

-- Rounds at a decimal place; a number that is whole at that scale stays as it is.
def roundTo (digits : Nat) (x : Double) : Except ExpressionError Json :=
  let scale := Double.pow 10 (min digits maxDigits)
  let scaled := x * scale
  if !scaled.isFinite || scaled.isWhole then .ok (Json.ofDouble x)
  else Expression.settle "round" (scaled.round / scale)

def within (min max : Option Double) (x : Double) : Double :=
  let x := match min with
    | some low => x.max low
    | none => x
  match max with
  | some high => x.min high
  | none => x

def apply (constraint : Constraint) (value : Json) : Except ExpressionError Json :=
  match constraint with
  | clamp min max => match value.double? with
    | some x => Expression.settle "clamp" (within min max x)
    | none => .error (Expression.mismatch "clamp" value .null)
  | round digits => match value.double? with
    | some x => roundTo (digits.getD 0) x
    | none => .error (Expression.mismatch "round" value .null)
  | maxLength length => match value with
    | .str s => .ok (.str (String.ofList (s.toList.take length)))
    | .arr items => .ok (.arr (items.take length))
    | _ => .error (Expression.mismatch "maxLength" value .null)
  | format template =>
    let shown := match value with
      | .str s => s.toList
      | other => other.render
    .ok (.str (String.ofList (Text.fillHoles shown template.toList)))

end Constraint

-- Arithmetic is done in doubles: a missing value counts as zero, an infinite result is put at the
-- largest finite number, and a result that is not a number is an error.
def Change.apply (change : Change) (current : Json) : Except ExpressionError Json :=
  match Operator.ofName? change.op with
  | none => .error (.unknownOperator change.op)
  | some operator => do
    let value ← Expression.applyOperator operator change.op current change.value
    change.constraints.foldlM (fun value constraint => constraint.apply value) value

end SceneLink
