import SceneLink.Link.Outbox
import SceneLink.Motion.Animator
import SceneLink.Settings

namespace SceneLink

structure Catalog where
  prefabs : Dict String Blueprint := []
  components : Dict String Blueprint := []

namespace Catalog

-- Registers a plan for whole objects; an earlier one of that name is replaced.
def addPrefab (c : Catalog) (name : String) (plan : Blueprint) : Logged Log.Line Catalog := do
  if c.prefabs.contains name then
    Log.warn s!"Replacing existing prefab registration: {name}"
  return { c with prefabs := c.prefabs.insert name plan }

def addComponent (c : Catalog) (name : String) (plan : Blueprint) : Logged Log.Line Catalog := do
  if c.components.contains name then
    Log.warn s!"Replacing existing component registration: {name}"
  return { c with components := c.components.insert name plan }

end Catalog

-- A host sends nothing at once; its operations leave with the next flush or tick.
structure Host where
  settings : HostSettings := {}
  world : World := {}
  catalog : Catalog := {}
  globals : Dict String Json := []
  animator : Animator := []
  outbox : Outbox := {}

inductive HostError where
  | missingId (event : String)
  | unknownObject (id : String)
  | unknownPrefab (name : String)
  | unknownComponent (name : String)
  | unexpectedEvent (event : String)
  | codec (cause : CodecError)
  | access (cause : AccessError)
  | transport (cause : TransportError)
deriving DecidableEq

def HostError.message : HostError → String
  | missingId event => s!"`{event}` operation has no object ID"
  | unknownObject id => s!"unknown object ID `{id}`"
  | unknownPrefab name => s!"unknown prefab `{name}`"
  | unknownComponent name => s!"unknown component `{name}`"
  | unexpectedEvent event => s!"`{event}` is not an operation the host accepts"
  | codec cause => cause.message
  | access cause => cause.message
  | transport cause => cause.message

namespace Host

abbrev Action (α : Type) := Procedure Host HostError α

def setOutbox (h : Host) (outbox : Outbox) : Host := { h with outbox := outbox }

-- Takes the batches that are on their way to the caller.
def collect (h : Host) : List String × Host :=
  let (batches, outbox) := h.outbox.collect
  (batches, h.setOutbox outbox)

def send (op : Operation) : Action Unit :=
  ((Outbox.send op).mapError .transport).onPart (·.outbox) setOutbox

def flush : Action Unit := (Outbox.flush.mapError .transport).onPart (·.outbox) setOutbox

def tickOutbox : Action Unit := (Outbox.tick.mapError .transport).onPart (·.outbox) setOutbox

def sendLogged (op : Operation) : Action Unit :=
  (send op).orWarn fun e => s!"Could not send {op.event.name}: {e.message}"

def requireObject (h : Host) (id : String) : Except HostError Handle :=
  match h.world.registry.get? id with
  | some handle => .ok handle
  | none => .error (.unknownObject id)

def register (id : String) (handle : Handle) : Action Unit := do
  let h ← get
  match ← Procedure.log (h.world.registry.insert id handle) with
  | .ok registry => set { h with world := { h.world with registry := registry } }
  | .error e => throw (.access e)

def resolve (h : Host) (id path : String) : Except HostError Json := do
  let handle ← h.requireObject id
  match Path.parse path with
  | .error e => throw (.access (.path e))
  | .ok path => match h.world.get (.object handle) path with
    | .error e => throw (.access e)
    | .ok node => return h.world.registry.toJson node

-- The data that an event carries, if there is an interest in it: the results of the interest's
-- query.
def interestData (h : Host) (id event : String) : Logged Log.Line (Option (Dict String Json)) :=
  match h.world.registry.entries.get? id with
  | none => return none
  | some entry => match entry.interests.get? event with
    | none => return none
    | some spec => do return some (← h.world.query (.object entry.handle) spec.query)

def sendCallback (callbackId : String) (data : Json) : Action Unit :=
  send (Operation.callback callbackId data)

-- The extra data is put below the results of the interest's query. The value says whether there was
-- an interest.
def emit (id event : String) (extra : Dict String Json) : Action Bool := do
  let h ← get
  let _ ← Procedure.ofExcept (h.requireObject id)
  match ← Procedure.log (h.interestData id event) with
  | none => return false
  | some results =>
    send (Operation.named event id (.record (extra.insertAll results)))
    return true

def announce : Action Unit := do
  Procedure.log (Log.info "Host started")
  sendLogged Operation.started
  let _ ← flush.outcome

def start (settings : HostSettings) (catalog : Catalog) (transport : Transport) :
    Logged Log.Line Host := do
  let outbox : Outbox := { started := true, logWire := settings.logWire, transport }
  let h : Host := { settings, catalog, outbox }
  if settings.announceOnAttach then
    let (_, h) ← announce h
    return h
  else return h

end Host

end SceneLink
