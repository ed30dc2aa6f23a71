import SceneLink.Json.Record
import SceneLink.Json.Printer

namespace SceneLink

inductive Event where
  | create | destroy | update | query | animate | updateInterests | setGlobals | log
  | callback | started | created | destroyed
  -- Any other event goes to the interest that is registered for it.
  | custom (name : String)
deriving DecidableEq

namespace Event

def builtIn : Dict String Event := [
  ("Create", create), ("Destroy", destroy), ("Update", update), ("Query", query),
  ("Animate", animate), ("UpdateInterests", updateInterests), ("SetGlobals", setGlobals),
  ("Log", log), ("Callback", callback), ("StartedUnity", started), ("Created", created),
  ("Destroyed", destroyed)]

def ofName (name : String) : Event := (builtIn.get? name).getD (custom name)

def name : Event → String
  | create => "Create"
  | destroy => "Destroy"
  | update => "Update"
  | query => "Query"
  | animate => "Animate"
  | updateInterests => "UpdateInterests"
  | setGlobals => "SetGlobals"
  | log => "Log"
  | callback => "Callback"
  | started => "StartedUnity"
  | created => "Created"
  | destroyed => "Destroyed"
  | custom name => name

def isCustom : Event → Bool
  | custom _ => true
  | _ => false

-- The event that carries the values written by updates that asked for a report.
def updated : Event := custom "Updated"

end Event

structure Operation where
  event : Event
  id : Option String := none
  data : Option Json := none

namespace Operation

def ofJson? (json : Json) : Option Operation := do
  let fields ← json.record? ["event", "id", "data"]
  let event ← fields.required "event" Json.str?
  let id ← fields.optional "id" Json.str?
  let data ← fields.optional "data" some
  return { event := Event.ofName event, id, data }

-- The fields that are present, in the order `event`, `id`, `data`.
def fields (op : Operation) : List (String × Json) :=
  ("event", .str op.event.name) ::
    (Json.present "id" (op.id.map Json.str) ++ Json.present "data" op.data)

def render (op : Operation) : List Char := '{' :: Json.renderFields op.fields ++ ['}']

def text (op : Operation) : String := String.ofList op.render

def destroy (id : String) : Operation := { event := .destroy, id := some id }

def update (id : String) (assignments : Dict String Json) : Operation :=
  { event := .update, id := some id, data := some (.record assignments) }

def setGlobals (globals : Dict String Json) : Operation :=
  { event := .setGlobals, data := some (.record globals) }

def log (line : String) : Operation :=
  { event := .log, data := some (.obj [("line", .str line)]) }

def callback (id : String) (data : Json) : Operation :=
  { event := .callback, id := some id, data := some data }

def started : Operation := { event := .started }

def created (id : String) : Operation := { event := .created, id := some id }

def destroyed (id : String) : Operation := { event := .destroyed, id := some id }

def named (name id : String) (data : Json) : Operation :=
  { event := Event.ofName name, id := some id, data := some data }

end Operation

end SceneLink
