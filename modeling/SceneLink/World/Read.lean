import SceneLink.World.Registry
import SceneLink.Scene.Basic
import SceneLink.Expression.Apply

namespace SceneLink

structure World where
  scene : Scene := {}
  registry : Registry := {}
  resources : Dict String Node := []

namespace Json

-- Text as data: the JSON value that it spells, or else the text itself.
def ofText (text : String) : Json := (parse? text).getD (.str text)

end Json

namespace Literal

def coerce (type : Literal) (value : Json) : Except AccessError Json :=
  let orInvalid (result : Option Json) : Except AccessError Json :=
    match result with
    | some coerced => .ok coerced
    | none => .error (.invalidLiteral type.name value.text)
  match type with
  | string => match value with
    | .str s => .ok (.str s)
    | other => .ok (.str other.text)
  | float => orInvalid <| match value with
    | .num n => some (Json.ofDouble n.toDouble)
    | .str s => (readDouble? s).map Json.ofDouble
    | _ => none
  | integer => orInvalid <| match value with
    | .num (.int n _ _) => some (Json.ofInt (min n (2 ^ 63 - 1)))
    | .num (.float x) => some (Json.ofInt (max (-2 ^ 63) (min x.truncated (2 ^ 63 - 1))))
    | .str s => (readInt? s).map Json.ofInt
    | _ => none
  | boolean => orInvalid <| match value with
    | .bool b => some (.bool b)
    | .str s => (readBool? s).map Json.bool
    | _ => none
  | null => .ok .null
  | json => .ok value

end Literal

def StepKind.coerce : StepKind → Json → Except AccessError Json
  | .literal type, value => type.coerce value
  | _, value => .ok value

namespace World

abbrev Evaluator := Node → Node → String → Except AccessError Node

def readIndex (key : String) : Except AccessError Nat :=
  match Text.index? key.toList with
  | some index => .ok index
  | none => .error (.invalidLiteral "index" key)

-- The key that an evaluated value stands for.
def keyOf : Json → Except AccessError String
  | .str key => .ok key
  | .num n => .ok (Json.ofDouble n.toDouble).text
  | other => .error (.typeMismatch "string or number key" other.text)

def stepKey (w : World) (eval : Evaluator) (root : Node) (step : Step) :
    Except AccessError String :=
  if step.excited then do
    let node ← eval root Node.null step.value
    keyOf (← node.toValue w.scene.describe)
  else .ok step.value

def literalAt (w : World) (eval : Evaluator) (root current : Node) (step : Step)
    (type : Literal) : Except AccessError Node :=
  if step.excited then do
    let node ← eval root current step.value
    let value ← node.toValue w.scene.describe
    return .value (← type.coerce value)
  else match type.read? step.value with
    | some json => .ok (.value json)
    | none => .error (.invalidLiteral type.name step.value)

def memberOf (w : World) (current : Node) (name : String) : Except AccessError Node :=
  match current with
  | .object h => do
    let object ← w.scene.read h
    match object.member? name with
    | some json => return .value json
    | none => throw (.noSuchMember name object.typeName)
  | .value (.obj fields) => match Dict.get? fields name with
    | some json => .ok (.value json)
    | none => .error (.noSuchMember name "record")
  | .value json => .error (.noSuchMember name json.kindName)

def itemOf (w : World) (current : Node) (index : Nat) : Except AccessError Node :=
  match current with
  | .object h => do (← w.scene.read h).item index
  | .value (.arr items) => match items[index]? with
    | some json => .ok (.value json)
    | none => .error (.indexOutOfRange index items.length)
  | .value json => .error (.notIndexable json.kindName)

def keyedIn (w : World) (current : Node) (key : String) : Except AccessError Node :=
  match current with
  | .object h => do (← w.scene.read h).key key
  | .value (.obj fields) => match Dict.get? fields key with
    | some json => .ok (.value json)
    | none => .error (.noSuchKey key)
  | .value json => .error (.notKeyed json.kindName)

-- The handle of the object that a step needs.
def objectFor (w : World) (current : Node) (step : Step) : Except AccessError Handle :=
  match current with
  | .object h => .ok h
  | node => .error (.notAnObject s!"{step.kind.name}:{step.value}" (w.scene.describe node))

def componentOf (w : World) (h : Handle) (name : String) : Except AccessError Node := do
  let object ← w.scene.read h
  match w.scene.component? object name with
  | some component => return .object component
  | none => throw (.noSuchComponent name object.typeName)

def childOf (w : World) (h : Handle) (name : String) : Except AccessError Node := do
  let object ← w.scene.read h
  match w.scene.child? object name with
  | some child => return .object child
  | none => throw (.noSuchChild name object.typeName)

-- What one step leads to from the current node. A method is called without arguments, which leaves
-- its object as it was.
def stepFrom (w : World) (eval : Evaluator) (root current : Node) (step : Step) :
    Except AccessError Node :=
  match step.kind with
  | .member => do w.memberOf current (← w.stepKey eval root step)
  | .index => do w.itemOf current (← readIndex (← w.stepKey eval root step))
  | .map => do w.keyedIn current (← w.stepKey eval root step)
  | .component => do
    let name ← w.stepKey eval root step
    w.componentOf (← w.objectFor current step) name
  | .transform => do
    let name ← w.stepKey eval root step
    w.childOf (← w.objectFor current step) name
  | .resource => do
    let name ← w.stepKey eval root step
    match w.resources.get? name with
    | some node => return node
    | none => throw (.noSuchResource name)
  | .object => do
    let id ← w.stepKey eval root step
    match w.registry.get? id with
    | some h => return .object h
    | none => throw (.unknownObject id)
  | .method => do
    let method ← w.stepKey eval root step
    let h ← w.objectFor current step
    (w.scene.call h method []).result.map Node.value
  | .literal type => w.literalAt eval root current step type
  | .unknown tag => .error (.unknownStepType tag)

-- A failing conditional step makes the whole path read as null.
def walk (w : World) (eval : Evaluator) (root : Node) : List Step → Node → Except AccessError Node
  | [], current => .ok current
  | step :: steps, current =>
    match w.stepFrom eval root current step with
    | .ok next => walk w eval root steps next
    | .error e => if step.conditional then .ok Node.null else .error e

-- Only the empty text is read without room left, and it stands for itself.
def evaluateWithin : Nat → World → Evaluator
  | 0, _, _, _, text => .ok (.value (.str text))
  | room + 1, w, root, current, text =>
    match Expression.ofJson (Json.ofText text) with
    | .error e => .error (.expression e)
    | .ok (.literal json) => .ok (.value json)
    | .ok (.reference path) => w.walk (evaluateWithin room w) root path.steps root
    | .ok (.change change) => do
      let base ← current.toValue w.scene.describe
      match change.apply base with
      | .ok json => return .value json
      | .error e => throw (.expression e)

-- A literal stands for itself, a reference is read from the root, and a change applies to the
-- current node. The room for evaluations is the length of the text, for a reference inside a text
-- is shorter than it.
def evaluate (w : World) : Evaluator := fun root current text =>
  evaluateWithin text.length w root current text

def get (w : World) (root : Node) (path : Path) : Except AccessError Node :=
  w.walk w.evaluate root path.steps root

-- Resolves the paths of a query from a root. A path that fails is left out with a warning.
def query (w : World) (root : Node) : Dict String Path → Logged Log.Line (Dict String Json)
  | [] => return []
  | (name, path) :: rest => do
    match w.get root path with
    | .ok node => return (name, w.registry.toJson node) :: (← query w root rest)
    | .error e =>
      Log.warn s!"Query key `{name}` ({path.text}) failed: {e.message}"
      query w root rest

end World

end SceneLink
