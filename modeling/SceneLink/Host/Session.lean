import SceneLink.Host.Creation

namespace SceneLink.Host

def requireId (op : Operation) : Except HostError String :=
  match nonEmpty? op.id with
  | some id => .ok id
  | none => .error (.missingId op.event.name)

def payload {α : Type} (op : Operation) (read : Json → Option α) : Action α :=
  Procedure.ofExcept ((op.payload read).mapError .codec)

-- Answers a query; without a callback the answer goes nowhere.
def query (id : String) (request : QueryRequest) : Action Unit := do
  let h ← get
  let object ← Procedure.ofExcept (h.requireObject id)
  let results ← Procedure.log (h.world.query (.object object) request.query)
  match request.callbackId with
  | some callbackId => sendCallback callbackId (.record results)
  | none => Procedure.log (Log.warn s!"Query on {id} has no callbackID; result dropped")

def animate (id : String) (animations : List Animation) : Action Unit := do
  let h ← get
  let _ ← Procedure.ofExcept (h.requireObject id)
  let start (animator : Animator) (animation : Animation) : Animator :=
    animator.start id animation h.settings.defaultEase
  set { h with animator := animations.foldl start h.animator }

-- One change of the interests of an object.
def changeInterest (interests : Dict String InterestSpec)
    (change : String × Option InterestSpec) : Dict String InterestSpec :=
  match change.2 with
  | some spec => interests.insert change.1 spec
  | none => interests.erase change.1

def updateInterests (id : String) (changes : InterestChanges) : Action Unit := do
  let h ← get
  let _ ← Procedure.ofExcept (h.requireObject id)
  let registry := h.world.registry.mapInterests id fun interests =>
    changes.foldl changeInterest interests
  set { h with world.registry := registry }

-- Forgets an object and drops its tweens; the data of the event is resolved before.
def destroy (id : String) : Action Unit := do
  let h ← get
  let _ ← Procedure.ofExcept (h.requireObject id)
  let data ← Procedure.log (h.interestData id Event.destroyed.name)
  let (cancelled, animator) := h.animator.cancel id
  set { h with world.registry := h.world.registry.remove id, animator }
  Procedure.log (Log.info s!"Destroyed {id} ({cancelled} animation(s) cancelled)")
  send { Operation.destroyed id with data := data.map Json.record }

def setGlobals (globals : Dict String Json) : Action Unit :=
  modify fun h => { h with globals := h.globals.insertAll globals }

def log (data : Dict String Json) : Action Unit :=
  match (data.get? "line").bind Json.str? with
  | some line => Procedure.log (Log.info s!"[bridge] {line}")
  | none => throw (.codec (.missingField Event.log.name "line"))

-- Applies one operation. The identifier is asked for before the payload is read.
def apply (op : Operation) : Action Unit :=
  match op.event with
  | .create => do create (← payload op Template.ofJson?)
  | .update => do update (← Procedure.ofExcept (requireId op)) (← payload op Json.fields?)
  | .query => do query (← Procedure.ofExcept (requireId op)) (← payload op QueryRequest.ofJson?)
  | .animate => do
    let id ← Procedure.ofExcept (requireId op)
    animate id (← payload op (Json.listOf? Animation.ofJson?))
  | .updateInterests => do
    updateInterests (← Procedure.ofExcept (requireId op)) (← payload op InterestChanges.ofJson?)
  | .destroy => do destroy (← Procedure.ofExcept (requireId op))
  | .setGlobals => do setGlobals (← payload op Json.fields?)
  | .log => do log (← payload op Json.fields?)
  | event => throw (.unexpectedEvent event.name)

-- The object that an operation is about; a template carries its own identifier.
def subject (op : Operation) : String :=
  match nonEmpty? op.id with
  | some id => id
  | none =>
    if op.event = .create then
      (((op.data.getD .null).field? "id").bind Json.str?).getD ""
    else ""

-- Whether a failure is passed over in silence.
def isQuiet (settings : HostSettings) : HostError → Bool
  | .unknownObject _ => !settings.reportUnknownObjects
  | _ => false

def applyLogged (op : Operation) : Action Unit := do
  match ← (apply op).outcome with
  | .ok () => return
  | .error e =>
    if isQuiet (← get).settings e then return
    else Procedure.log (Log.warn s!"{op.event.name} {subject op} failed: {e.message}")

def applyAll : List Operation → Action Unit
  | [] => return
  | op :: ops => do
    applyLogged op
    applyAll ops

-- A malformed batch is dropped.
def receive (raw : String) : Action Unit := do
  if (← get).settings.logWire then Procedure.log (Log.trace s!"<- {raw}")
  match ← Procedure.log (Batch.decode raw) with
  | .error e => Procedure.log (Log.warn s!"Dropping malformed batch: {e.message}")
  | .ok ops => do
    applyAll ops
    let _ ← flush.outcome

def notify : List Completed → Action Unit
  | [] => return
  | done :: rest => do
    if let some callbackId := done.callbackId then
      sendLogged (Operation.callback callbackId done.value)
    notify rest

-- One frame of `dt` seconds: tweens advance, those that ended are reported, and what was queued is
-- sent.
def tick (dt : Double) : Action Unit := do
  let h ← get
  let advanced ← Procedure.log (h.animator.advance h.world dt)
  set { h with world := advanced.world, animator := advanced.running }
  notify advanced.completed
  let _ ← tickOutbox.outcome

end SceneLink.Host
