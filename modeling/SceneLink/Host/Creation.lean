import SceneLink.Host.Basic

namespace SceneLink.Host

def setWorld (world : World) : Action Unit := modify fun h => { h with world := world }

-- The new object of a template, in a scene of its own: built from the prefab, or an entity named by
-- the last part of its kind.
def instantiate (h : Host) (template : Template) :
    Logged Log.Line (Except HostError (Handle × Scene)) :=
  match nonEmpty? template.prefab with
  | some name => match h.catalog.prefabs.get? name with
    | none => return .error (.unknownPrefab name)
    | some plan => do
      Log.info s!"Instantiating prefab {name}"
      return .ok (plan.build h.world.scene)
  | none =>
    let name := String.ofList (Text.lastPiece '/' template.kind.toList)
    return .ok ((Blueprint.entity name none [] []).build h.world.scene)

def addComponent (h : Host) (template : Template) (object : Handle) (scene : Scene) :
    Except HostError Scene :=
  match nonEmpty? template.component with
  | none => .ok scene
  | some name => match h.catalog.components.get? name with
    | none => .error (.unknownComponent name)
    | some plan =>
      let (component, scene) := plan.build scene
      (scene.addComponent object component).mapError .access

def parentOf (w : World) (child : Handle) (parent : String) : Except AccessError Handle := do
  let path ← (Path.parse parent).mapError .path
  match ← w.get (.object child) path with
  | .object h => return h
  | node => throw (.notAnObject parent (w.scene.describe node))

def attach (child : Handle) (parent : String) (stays : Bool) : Action Unit := do
  let h ← get
  let attached : Except AccessError Scene := do
    let above ← parentOf h.world child parent
    if above = child then throw (.attachToSelf parent)
    h.world.scene.addChild above child stays
  let scene ← Procedure.ofExcept (attached.mapError .access)
  setWorld { h.world with scene := scene }

def deliver (object : Handle) (events : List TemplateEvent) : Action Unit := do
  let h ← get
  let delivered := h.world.scene.deliver object (events.map (·.event))
  let scene ← Procedure.ofExcept (delivered.mapError .access)
  setWorld { h.world with scene := scene }

-- Makes one assignment; the value is given as data if a report was asked for.
def assign (object : Handle) (text : String) (raw : Json) : Action (Option Json) := do
  let path ← Procedure.ofExcept ((Path.parse text).mapError fun e => .access (.path e))
  let expr ← Procedure.ofExcept
    ((Expression.ofJson raw).mapError fun e => .access (.expression e))
  let h ← get
  let written := h.world.assign (.object object) path expr
  setWorld written.world
  let node ← Procedure.ofExcept (written.result.mapError .access)
  return if expr.report then some (h.world.registry.toJson node) else none

-- Makes the assignments of an update, each on its own, and gives the values to report by path.
def applyUpdate (id : String) (object : Handle) : Dict String Json → Action (Dict String Json)
  | [] => return []
  | (text, raw) :: rest => do
    let outcome ← (assign object text raw).outcome
    if let .error e := outcome then
      Procedure.log (Log.warn s!"Update of `{text}` on {id} failed: {e.message}")
    let reported ← applyUpdate id object rest
    match outcome with
    | .ok (some json) => return (text, json) :: reported
    | _ => return reported

def report (id : String) (reported : Dict String Json) : Action Unit :=
  if reported = [] then return
  else send (Operation.named Event.updated.name id (.record reported))

def sendCreated (id : String) : Action Unit := do
  let data ← Procedure.log ((← get).interestData id Event.created.name)
  send { Operation.created id with data := data.map Json.record }

def place (template : Template) : Action Handle := do
  let h ← get
  let id := template.id
  if id = "" then throw (.codec (.missingField Event.create.name "id"))
  if h.world.registry.contains id then throw (.access (.duplicateObject id))
  let (object, scene) ← Procedure.ofExcept (← Procedure.log (h.instantiate template))
  let scene ← Procedure.ofExcept (h.addComponent template object scene)
  setWorld { h.world with scene := scene }
  register id object
  Procedure.log (Log.info s!"Created {id}")
  return object

-- A template that names an unknown prefab or component is refused as a whole. Once the object is
-- registered, a step that fails is logged and the others go on.
def create (template : Template) : Action Unit := do
  let object ← place template
  let id := template.id
  (deliver object template.preEvents).orWarn fun e => s!"Pre-events for {id} failed: {e.message}"
  if let some parent := nonEmpty? template.parent then
    (attach object parent (template.worldPositionStays.getD true)).orWarn fun e =>
      s!"Could not attach {id} to `{parent}`: {e.message}"
  let reported ← applyUpdate id object template.update
  modify fun h => { h with
    world.registry := h.world.registry.mapInterests id fun _ => template.interests }
  (deliver object template.postEvents).orWarn fun e =>
    s!"Post-events for {id} failed: {e.message}"
  sendCreated id
  report id reported

def update (id : String) (assignments : Dict String Json) : Action Unit := do
  let object ← Procedure.ofExcept ((← get).requireObject id)
  report id (← applyUpdate id object assignments)

end SceneLink.Host
