import SceneLink.Caller.Tables
import SceneLink.Operation.Issuer
import SceneLink.Link.Outbox
import SceneLink.Settings

namespace SceneLink

-- A request on an object is refused unless the object is tracked and not being destroyed.
-- Identifiers are issued here, so an object is known before the host has heard of it.
structure Caller (H : Type) where
  settings : CallerSettings := {}
  objectIds : Issuer := {}
  callbackIds : Issuer := {}
  objects : ObjectTable H := []
  callbacks : CallbackTable H := []
  outbox : Outbox := {}

inductive CallerError where
  | unknownObject (id : String)
  | path (cause : ParseError)
  | transport (cause : TransportError)
deriving DecidableEq

def CallerError.message : CallerError → String
  | unknownObject id => s!"unknown object ID `{id}`"
  | path cause => cause.message
  | transport cause => cause.message

-- Changes of interests by event name; `none` removes one.
abbrev HandlerChanges (H : Type) := Dict String (Option (Interest H))

namespace Caller

variable {H : Type}

abbrev Action (H α : Type) := Procedure (Caller H) CallerError α

def start (settings : CallerSettings) (transport : Transport) : Caller H where
  settings := settings
  outbox := { started := settings.startImmediate, logWire := settings.logWire, transport }

def isStarted (c : Caller H) : Bool := c.outbox.started

def setOutbox (c : Caller H) (outbox : Outbox) : Caller H := { c with outbox := outbox }

-- Takes the batches that are on their way to the host.
def collect (c : Caller H) : List String × Caller H :=
  let (batches, outbox) := c.outbox.collect
  (batches, c.setOutbox outbox)

def send (op : Operation) : Action H Unit :=
  ((Outbox.send op).mapError .transport).onPart (·.outbox) setOutbox

def flush : Action H Unit := (Outbox.flush.mapError .transport).onPart (·.outbox) setOutbox

def tick : Action H Unit := (Outbox.tick.mapError .transport).onPart (·.outbox) setOutbox

def requireLive (id : String) : Action H Unit := do
  if !(← get).objects.isLive id then throw (.unknownObject id)

-- Undoes what a request noted if the request cannot be sent.
def sendOr (undo : Caller H → Caller H) (op : Operation) : Action H Unit := do
  match ← (send op : Action H Unit).outcome with
  | .ok () => return
  | .error e =>
    modify undo
    throw e

def specs (interests : Dict String (Interest H)) : Dict String InterestSpec :=
  interests.mapValues (·.spec)

-- The handlers stay here, and only the specifications of their interests travel.
def create (template : Template) (interests : Dict String (Interest H)) : Action H String := do
  let (id, objectIds) := (← get).objectIds.issue template.kind
  let template := { template with
    id, interests := template.interests.insertAll (specs interests) }
  modify fun c => { c with
    objectIds, objects := c.objects.insert id { kind := template.kind, interests } }
  sendOr (fun c => { c with objects := c.objects.erase id }) (Operation.create template)
  Procedure.log (Log.info s!"Requested {id}")
  return id

def update (id : String) (assignments : Dict String Json) : Action H Unit := do
  requireLive id
  send (Operation.update id assignments)

def register (continuation : Continuation H) : Action H String := do
  let (id, callbackIds) := (← get).callbackIds.issue "Callback"
  modify fun c => { c with callbackIds, callbacks := c.callbacks.insert id continuation }
  return id

def forget (callbackId : String) (c : Caller H) : Caller H :=
  { c with callbacks := c.callbacks.erase callbackId }

def query (id : String) (paths : Dict String Path) (handler : H) : Action H String := do
  requireLive id
  let callbackId ← register (.once handler)
  sendOr (forget callbackId)
    (Operation.query id { query := paths, callbackId := some callbackId })
  return callbackId

-- A query with paths in text form; it is refused if one of them does not parse.
def queryPaths (id : String) (pairs : List (String × String)) (handler : H) :
    Action H String := do
  let spec ← Procedure.ofExcept ((InterestSpec.ofPaths pairs).mapError .path)
  query id spec.query handler

def animate (id : String) (animations : List Animation) : Action H Unit := do
  requireLive id
  send (Operation.animate id animations)

-- From now on the object takes no more requests, and it is tracked until the host confirms.
def destroy (id : String) : Action H Unit := do
  requireLive id
  modify fun c => { c with objects := c.objects.setState id .pendingDestroy }
  send (Operation.destroy id)
  Procedure.log (Log.info s!"Requested destruction of {id}")

def changeInterest (interests : Dict String (Interest H)) (change : String × Option (Interest H)) :
    Dict String (Interest H) :=
  match change.2 with
  | some interest => interests.insert change.1 interest
  | none => interests.erase change.1

-- The change holds here before it is sent.
def updateInterests (id : String) (changes : HandlerChanges H) : Action H Unit := do
  requireLive id
  modify fun c => match c.objects.get? id with
    | some object =>
      let interests := changes.foldl changeInterest object.interests
      { c with objects := c.objects.setInterests id interests }
    | none => c
  send (Operation.updateInterests id (changes.mapValues fun change => change.map (·.spec)))

def setGlobals (globals : Dict String Json) : Action H Unit :=
  send (Operation.setGlobals globals)

def log (line : String) : Action H Unit := send (Operation.log line)

-- Forgets a continuation; the value says whether it was waiting.
def clear (callbackId : String) : Action H Bool := do
  let waiting := (← get).callbacks.contains callbackId
  modify (forget callbackId)
  return waiting

end Caller

end SceneLink
