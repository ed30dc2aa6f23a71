import SceneLink.Log
import SceneLink.Scene.Node
import SceneLink.Operation.Payload

namespace SceneLink

structure Registration where
  handle : Handle
  -- By event name.
  interests : Dict String InterestSpec := []

-- An object may have several names; the one given last is the one it is reported by.
structure Registry where
  entries : Dict String Registration := []
  -- The name that an object is reported by.
  names : Dict Handle String := []

namespace Registry

def contains (r : Registry) (id : String) : Bool := r.entries.contains id

def get? (r : Registry) (id : String) : Option Handle := (r.entries.get? id).map (·.handle)

def ids (r : Registry) : List String := r.entries.keys

def idOf? (r : Registry) (h : Handle) : Option String := r.names.get? h

-- Names an object; an identifier in use is refused with a warning.
def insert (r : Registry) (id : String) (h : Handle) :
    Logged Log.Line (Except AccessError Registry) := do
  if r.contains id then
    Log.warn s!"Object ID {id} is already registered"
    return .error (.duplicateObject id)
  else
    return .ok { entries := r.entries.insert id { handle := h }, names := r.names.insert h id }

-- Forgets an identifier, and with it the name its object is reported by.
def remove (r : Registry) (id : String) : Registry :=
  match r.entries.get? id with
  | none => r
  | some entry => { entries := r.entries.erase id, names := r.names.erase entry.handle }

def mapInterests (r : Registry) (id : String)
    (change : Dict String InterestSpec → Dict String InterestSpec) : Registry :=
  match r.entries.get? id with
  | none => r
  | some entry =>
    { r with entries := r.entries.insert id { entry with interests := change entry.interests } }

-- The data of a node: an object is given by its identifier, or null if it has none.
def toJson (r : Registry) : Node → Json
  | .value json => json
  | .object h => match r.idOf? h with
    | some id => .str id
    | none => .null

end Registry

end SceneLink
