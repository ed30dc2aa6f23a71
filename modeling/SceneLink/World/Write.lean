import SceneLink.World.Read

/-!
Writing paths. Plain data on the way is a copy: the assignment is made in the copy, and the
copies are then put back from the last step to the first. A live object is changed in place,
and steps that are evaluated after that see the change. A failing conditional step skips the
write.
-/

namespace SceneLink

-- An edit of a scene; what it changed before it failed stays changed.
abbrev Edit (α : Type) := ExceptT AccessError (StateM Scene) α

namespace Edit

def attempt {α : Type} (result : Except AccessError α) : Edit α := fun s => (result, s)

def change (f : Scene → Except AccessError Scene) : Edit Unit := fun s =>
  match f s with
  | .ok s => (.ok (), s)
  | .error e => (.error e, s)

def call (h : Handle) (method : String) (args : List Json) : Edit Json := fun s =>
  let called := s.call h method args
  (called.result, called.scene)

def toValue (node : Node) : Edit Json := fun s => (node.toValue s.describe, s)

end Edit

namespace World

def reading {α : Type} (w : World) (f : World → Except AccessError α) : Edit α := fun s =>
  (f { w with scene := s }, s)

def setMember (current : Node) (name : String) (value : Node) : Edit Node :=
  match current with
  | .object h => do
    Edit.change (·.setMember h name value)
    return current
  | .value (.obj fields) =>
    if Dict.contains fields name then do
      return .value (.obj (Dict.insert fields name (← Edit.toValue value)))
    else throw (.noSuchMember name "record")
  | .value json => throw (.noSuchMember name json.kindName)

def setItem (current : Node) (index : Nat) (value : Node) : Edit Node :=
  match current with
  | .object h => do
    Edit.change (·.setItem h)
    return current
  | .value (.arr items) =>
    if index < items.length then do
      return .value (.arr (items.set index (← Edit.toValue value)))
    else throw (.indexOutOfRange index items.length)
  | .value json => throw (.notIndexable json.kindName)

def setKey (current : Node) (key : String) (value : Node) : Edit Node :=
  match current with
  | .object h => do
    Edit.change (·.setKey h key value)
    return current
  | .value (.obj fields) => do
    return .value (.obj (Dict.insert fields key (← Edit.toValue value)))
  | .value json => throw (.notKeyed json.kindName)

-- An array is the list of arguments, and any other value the only one.
def arguments : Json → List Json
  | .arr args => args
  | single => [single]

-- Assigns to the slot that one step addresses in the current node, and gives that node as it is
-- afterwards.
def setAt (w : World) (root current : Node) (step : Step) (value : Node) : Edit Node := do
  let key := w.reading fun w => w.stepKey w.evaluate root step
  match step.kind with
  | .member => setMember current (← key) value
  | .index => setItem current (← Edit.attempt (readIndex (← key))) value
  | .map => setKey current (← key) value
  | .method =>
    let method ← key
    let h ← w.reading fun w => w.objectFor current step
    let _ ← Edit.call h method (arguments (← Edit.toValue value))
    return current
  | .unknown tag => throw (.unknownStepType tag)
  | kind => throw (.notAssignable kind.name)

-- A failure of a conditional step skips the write.
def skippable {α : Type} (step : Step) (edit : Edit α) : Edit (Option α) :=
  tryCatch (do return some (← edit)) fun e => if step.conditional then return none else throw e

def holdsData : StepKind → Bool
  | .member | .index | .map => true
  | _ => false

def enter (w : World) (root current : Node) (step : Step) : Edit Node := do
  let child ← w.reading fun w => w.stepFrom w.evaluate root current step
  match child with
  | .object _ => return child
  | .value _ => if holdsData step.kind then return child else throw (.notAssignable step.kind.name)

-- Writes below the current node, and gives that node as it is afterwards, or `none` if the write
-- was skipped.
def setSteps (w : World) (root : Node) (value : Node) : List Step → Node → Edit (Option Node)
  | [], _ => return none
  | [step], current => skippable step (w.setAt root current step value)
  | step :: steps, current => do
    match ← skippable step (w.enter root current step) with
    | none => return none
    | some child =>
      match ← setSteps w root value steps child with
      | none => return none
      | some (.object _) => return some current
      | some copy => skippable step (w.setAt root current step copy)

def setNode (w : World) (root : Node) (path : Path) (value : Node) : Edit Node :=
  if path.steps = [] then throw (.notAssignable "root")
  else do return (← w.setSteps root value path.steps root).getD root

structure Written (α : Type) where
  world : World
  root : Node
  result : Except AccessError α

def runEdit {α : Type} (w : World) (root : Node) (edit : Edit (Node × α)) : Written α :=
  match edit.run w.scene with
  | (.ok (root, a), scene) => ⟨{ w with scene := scene }, root, .ok a⟩
  | (.error e, scene) => ⟨{ w with scene := scene }, root, .error e⟩

def set (w : World) (root : Node) (path : Path) (value : Node) : Written Unit :=
  w.runEdit root do return (← w.setNode root path value, ())

-- The value that an expression has as an assignment to a path. A key that does not exist yet counts
-- as null.
def valueOf (w : World) (root : Node) (path : Path) : Expression → Except AccessError Node
  | .literal json => .ok (.value json)
  | .reference source => w.get root source
  | .change change => do
    let current ← match w.get root path with
      | .ok node => node.toValue w.scene.describe
      | .error (.noSuchKey _) => pure .null
      | .error e => throw e
    match change.apply current with
    | .ok json => return .value json
    | .error e => throw (.expression e)

def assign (w : World) (root : Node) (path : Path) (expr : Expression) : Written Node :=
  w.runEdit root do
    let value ← w.reading fun w => w.valueOf root path expr
    return (← w.setNode root path value, value)

end World

end SceneLink
