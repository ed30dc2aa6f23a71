import SceneLink.Caller.Basic

namespace SceneLink

inductive Occasion where
  | event (name id : String) (data : Json)
  | answer (data : Json)

inductive Request (H : Type) where
  | create (template : Template) (interests : Dict String (Interest H))
  | update (id : String) (assignments : Dict String Json)
  | query (id : String) (paths : Dict String Path) (handler : H)
  | queryPaths (id : String) (pairs : List (String × String)) (handler : H)
  | animate (id : String) (animations : List Animation)
  | destroy (id : String)
  | updateInterests (id : String) (changes : HandlerChanges H)
  | setGlobals (globals : Dict String Json)
  | log (line : String)
  | register (continuation : Continuation H)
  | clear (callbackId : String)
  | receive (raw : String)
  | distribute (op : Operation)
  | tick
  | flush
  -- The transport itself changes; the caller does nothing.
  | rewire (transport : Transport)

inductive Answer where
  | unit
  | id (id : String)
  | flag (b : Bool)

abbrev Reply := Except CallerError Answer

-- What a handler does; `N` is the type of the notes that it leaves.
inductive Reaction (H N : Type) where
  | done
  | note (n : N) (next : Reaction H N)
  | request (request : Request H) (next : Reply → Reaction H N)

inductive Happening (H N : Type) where
  | line (line : Log.Line)
  | ran (handler : H) (occasion : Occasion)
  | noted (n : N)

namespace Caller

variable {H N : Type}

abbrev Turn (H N α : Type) := StateT (Caller H) (Logged (Happening H N)) α

abbrev Runner (H N : Type) := H → Occasion → Turn H N Unit

namespace Turn

def tell (happening : Happening H N) : Turn H N Unit := fun c => do
  Logged.tell happening
  return ((), c)

def log (line : Logged Log.Line Unit) : Turn H N Unit := fun c =>
  ⟨((), c), line.output.map .line⟩

def ofAction {α : Type} (action : Action H α) : Turn H N (Except CallerError α) := fun c =>
  (action c).mapOutput .line

def ofLogged {α : Type} (x : Logged Log.Line α) : Turn H N α := fun c =>
  ⟨(x.value, c), x.output.map .line⟩

end Turn

def runInterest (run : Runner H N) (id event : String) (data : Json) : Turn H N Unit := do
  match (← get).objects.handler? id event with
  | some handler => run handler (.event event id data)
  | none => return

-- The far end has started: sends wait for the tick, and those made before go out now.
def onStarted : Turn H N Unit := do
  Turn.log (Log.info "Host started")
  modify fun c => { c with outbox := c.outbox.setStarted true }
  let _ ← Turn.ofAction flush

def onCallback (run : Runner H N) (id : String) (data : Json) : Turn H N Unit := do
  let (continuation, callbacks) := (← get).callbacks.take id
  match continuation with
  | some continuation =>
    modify fun c => { c with callbacks }
    run continuation.handler (.answer data)
  | none => Turn.log (Log.warn s!"Callback {id} is not pending; dropped")

def onCreated (run : Runner H N) (id : String) (data : Json) : Turn H N Unit := do
  match (← get).objects.get? id with
  | none => Turn.log (Log.warn s!"Created for unknown object {id}; dropped")
  | some object =>
    if object.state = .requested then
      modify fun c => { c with objects := c.objects.setState id .active }
    runInterest run id Event.created.name data

-- The interest in the end of an object runs before the object is forgotten.
def onDestroyed (run : Runner H N) (id : String) (data : Json) : Turn H N Unit := do
  if (← get).objects.contains id then
    runInterest run id Event.destroyed.name data
    modify fun c => { c with objects := c.objects.erase id }
  else Turn.log (Log.warn s!"Destroyed for unknown object {id}; dropped")

def onEvent (run : Runner H N) (name id : String) (data : Json) : Turn H N Unit := do
  if (← get).objects.contains id then runInterest run id name data
  else Turn.log (Log.warn s!"{name} for unknown object {id}; dropped")

def distribute (run : Runner H N) (op : Operation) : Turn H N Unit :=
  let data := op.data.getD .null
  match op.event, op.id with
  | .started, _ => onStarted
  | event, none => Turn.log (Log.warn s!"{event.name} without an ID dropped")
  | .callback, some id => onCallback run id data
  | .created, some id => onCreated run id data
  | .destroyed, some id => onDestroyed run id data
  | .custom name, some id => onEvent run name id data
  | event, some _ => Turn.log (Log.warn s!"{event.name} is not an inbound event; dropped")

def distributeAll (run : Runner H N) : List Operation → Turn H N Unit
  | [] => return
  | op :: ops => do
    distribute run op
    distributeAll run ops

-- A malformed batch is dropped.
def receive (run : Runner H N) (raw : String) : Turn H N Unit := do
  if (← get).settings.logWire then Turn.log (Log.trace s!"<- {raw}")
  match ← Turn.ofLogged (Batch.decode raw) with
  | .ok ops => distributeAll run ops
  | .error e => Turn.log (Log.warn s!"Dropping malformed batch: {e.message}")

-- An action as a request, with its value as the answer.
def answering {α : Type} (answer : α → Answer) (action : Action H α) : Turn H N Reply := do
  return (← Turn.ofAction action).map answer

def perform (run : Runner H N) : Request H → Turn H N Reply
  | .create template interests => answering .id (create template interests)
  | .update id assignments => answering (fun _ => .unit) (update id assignments)
  | .query id paths handler => answering .id (query id paths handler)
  | .queryPaths id pairs handler => answering .id (queryPaths id pairs handler)
  | .animate id animations => answering (fun _ => .unit) (animate id animations)
  | .destroy id => answering (fun _ => .unit) (destroy id)
  | .updateInterests id changes => answering (fun _ => .unit) (updateInterests id changes)
  | .setGlobals globals => answering (fun _ => .unit) (setGlobals globals)
  | .log line => answering (fun _ => .unit) (log line)
  | .register continuation => answering .id (register continuation)
  | .clear id => answering .flag (clear id)
  | .tick => answering (fun _ => .unit) tick
  | .flush => answering (fun _ => .unit) flush
  | .receive raw => do
    receive run raw
    return .ok .unit
  | .distribute op => do
    distribute run op
    return .ok .unit
  | .rewire transport => do
    modify fun c => { c with outbox := c.outbox.setTransport transport }
    return .ok .unit

def react (run : Runner H N) : Reaction H N → Turn H N Unit
  | .done => return
  | .note n next => do
    Turn.tell (.noted n)
    react run next
  | .request request next => do
    let reply ← perform run request
    react run (next reply)

-- Handlers may make requests that run further handlers. At the last depth a handler still runs, but
-- does nothing more.
def runWithin (behave : H → Occasion → Reaction H N) : Nat → Runner H N
  | 0, handler, occasion => Turn.tell (.ran handler occasion)
  | depth + 1, handler, occasion => do
    Turn.tell (.ran handler occasion)
    react (runWithin behave depth) (behave handler occasion)

end Caller

end SceneLink
