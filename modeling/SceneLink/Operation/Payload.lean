import SceneLink.Operation.Basic
import SceneLink.Operation.Batch
import SceneLink.Motion.Animation

namespace SceneLink

structure InterestSpec where
  -- Output name to path.
  query : Dict String Path := []
  -- Other metadata, carried along untouched.
  extra : Dict String Json := []

-- An event that a new object receives before or after its update.
structure TemplateEvent where
  event : String
  data : Option Json := none

structure Template where
  id : String := ""
  prefab : Option String := none
  component : Option String := none
  preEvents : List TemplateEvent := []
  -- A path that starts at the new object.
  parent : Option String := none
  worldPositionStays : Option Bool := none
  -- Path to value or expression.
  update : Dict String Json := []
  interests : Dict String InterestSpec := []
  postEvents : List TemplateEvent := []

structure QueryRequest where
  query : Dict String Path := []
  callbackId : Option String := none

namespace InterestSpec

-- An interest is an object; its field `query` may be missing, and every other field is metadata.
def ofJson? : Json → Option InterestSpec
  | .obj fields => do
    let query ← Json.Fields.withDefault (Dict.get? fields) "query" [] (Json.dictOf? Path.ofJson?)
    return { query, extra := Dict.erase fields "query" }
  | _ => none

def toJson (spec : InterestSpec) : Json :=
  Json.ofFields (("query", .record (spec.query.mapValues Path.toJson)) :: spec.extra)

-- The interest that resolves the given paths, or the first error among them.
def ofPaths (pairs : List (String × String)) : Except ParseError InterestSpec := do
  let parsed ← pairs.mapM fun (name, text) => do
    let path ← Path.parse text
    return (name, path)
  return { query := Dict.ofList parsed }

end InterestSpec

namespace TemplateEvent

def ofJson? (json : Json) : Option TemplateEvent := do
  let fields ← json.record? ["event", "data"]
  let event ← fields.required "event" Json.str?
  let data ← fields.optional "data" some
  return { event, data }

def toJson (event : TemplateEvent) : Json :=
  Json.ofFields (("event", .str event.event) :: Json.present "data" event.data)

end TemplateEvent

-- An empty text stands for an absent one.
def nonEmpty? (text : Option String) : Option String := text.filter (· ≠ "")

namespace Template

def defaultKind : String := "Object"

def ofPrefab (name : String) : Template := { prefab := some name }

def kind (template : Template) : String :=
  ((nonEmpty? template.prefab).or (nonEmpty? template.component)).getD defaultKind

def fieldNames : List String :=
  ["id", "prefab", "component", "preEvents", "parent", "worldPositionStays", "update",
    "interests", "postEvents"]

def ofJson? (json : Json) : Option Template := do
  let fields ← json.record? fieldNames
  let id ← fields.withDefault "id" "" Json.str?
  let prefab ← fields.optional "prefab" Json.str?
  let component ← fields.optional "component" Json.str?
  let preEvents ← fields.withDefault "preEvents" [] (Json.listOf? TemplateEvent.ofJson?)
  let parent ← fields.optional "parent" Json.str?
  let worldPositionStays ← fields.optional "worldPositionStays" Json.bool?
  let update ← fields.withDefault "update" [] Json.fields?
  let interests ← fields.withDefault "interests" [] (Json.dictOf? InterestSpec.ofJson?)
  let postEvents ← fields.withDefault "postEvents" [] (Json.listOf? TemplateEvent.ofJson?)
  return { id, prefab, component, preEvents, parent, worldPositionStays, update, interests,
           postEvents }

def listField (name : String) (events : List TemplateEvent) : List (String × Json) :=
  if events.isEmpty then [] else [(name, .arr (events.map TemplateEvent.toJson))]

def dictField (name : String) (entries : Dict String Json) : List (String × Json) :=
  if entries.isEmpty then [] else [(name, .record entries)]

-- The identifier is always written, every other field only if it says something.
def toJson (t : Template) : Json := Json.ofFields (
  [("id", .str t.id)]
    ++ Json.present "prefab" ((nonEmpty? t.prefab).map Json.str)
    ++ Json.present "component" ((nonEmpty? t.component).map Json.str)
    ++ listField "preEvents" t.preEvents
    ++ Json.present "parent" ((nonEmpty? t.parent).map Json.str)
    ++ Json.present "worldPositionStays" (t.worldPositionStays.map Json.bool)
    ++ dictField "update" t.update
    ++ dictField "interests" (t.interests.mapValues InterestSpec.toJson)
    ++ listField "postEvents" t.postEvents)

end Template

namespace QueryRequest

def ofJson? (json : Json) : Option QueryRequest := do
  let fields ← json.record? ["query", "callbackID"]
  let query ← fields.required "query" (Json.dictOf? Path.ofJson?)
  let callbackId ← fields.optional "callbackID" Json.str?
  return { query, callbackId }

def toJson (request : QueryRequest) : Json :=
  Json.ofFields (("query", .record (request.query.mapValues Path.toJson)) ::
    Json.present "callbackID" (request.callbackId.map Json.str))

end QueryRequest

-- Changes of interests by event name; `none` removes one.
abbrev InterestChanges := Dict String (Option InterestSpec)

namespace InterestChanges

def ofJson? : Json → Option InterestChanges :=
  Json.dictOf? (Json.nullable? InterestSpec.ofJson?)

def specToJson : Option InterestSpec → Json
  | none => .null
  | some spec => spec.toJson

def toJson (changes : InterestChanges) : Json := .record (changes.mapValues specToJson)

end InterestChanges

namespace Operation

def create (template : Template) : Operation :=
  { event := .create, data := some template.toJson }

def query (id : String) (request : QueryRequest) : Operation :=
  { event := .query, id := some id, data := some request.toJson }

def animate (id : String) (animations : List Animation) : Operation :=
  { event := .animate, id := some id, data := some (.arr (animations.map Animation.toJson)) }

def updateInterests (id : String) (changes : InterestChanges) : Operation :=
  { event := .updateInterests, id := some id, data := some changes.toJson }

end Operation

end SceneLink
