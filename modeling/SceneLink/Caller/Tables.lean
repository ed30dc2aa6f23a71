import SceneLink.Operation.Payload

namespace SceneLink

inductive Lifecycle where
  -- Asked for, not yet confirmed.
  | requested
  | active
  -- To be destroyed; it takes no more requests.
  | pendingDestroy
deriving DecidableEq

namespace Lifecycle

def name : Lifecycle → String
  | requested => "Requested"
  | active => "Active"
  | pendingDestroy => "PendingDestroy"

def ofName? (name : String) : Option Lifecycle :=
  [requested, active, pendingDestroy].find? fun state => state.name = name

-- A state is given by its name, or as an object with its name for a field that is null.
def ofJson? : Json → Option Lifecycle
  | .str name => ofName? name
  | .obj [(name, .null)] => ofName? name
  | _ => none

def isLive (state : Lifecycle) : Bool := state ≠ pendingDestroy

end Lifecycle

structure Interest (H : Type) where
  spec : InterestSpec
  handler : H

structure TrackedObject (H : Type) where
  -- What its identifier was made from.
  kind : String
  state : Lifecycle := .requested
  -- By event name.
  interests : Dict String (Interest H) := []

abbrev ObjectTable (H : Type) := Dict String (TrackedObject H)

namespace ObjectTable

variable {H : Type}

def isLive (table : ObjectTable H) (id : String) : Bool :=
  match table.get? id with
  | some object => object.state.isLive
  | none => false

def setState (table : ObjectTable H) (id : String) (state : Lifecycle) : ObjectTable H :=
  match table.get? id with
  | some object => table.insert id { object with state := state }
  | none => table

def setInterests (table : ObjectTable H) (id : String) (interests : Dict String (Interest H)) :
    ObjectTable H :=
  match table.get? id with
  | some object => table.insert id { object with interests := interests }
  | none => table

def handler? (table : ObjectTable H) (id event : String) : Option H :=
  ((table.get? id).bind fun object => object.interests.get? event).map (·.handler)

end ObjectTable

inductive Continuation (H : Type) where
  -- Leaves the table before it runs.
  | once (handler : H)
  -- Stays until it is cleared.
  | persistent (handler : H)

def Continuation.handler {H : Type} : Continuation H → H
  | once h => h
  | persistent h => h

abbrev CallbackTable (H : Type) := Dict String (Continuation H)

namespace CallbackTable

variable {H : Type}

-- The continuation to run for an answer, and the table without it if it runs only once.
def take (table : CallbackTable H) (id : String) : Option (Continuation H) × CallbackTable H :=
  match table.get? id with
  | some (.persistent h) => (some (.persistent h), table)
  | other => (other, table.erase id)

end CallbackTable

end SceneLink
