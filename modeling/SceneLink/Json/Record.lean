import SceneLink.Json.Basic

namespace SceneLink.Json

abbrev Fields := String → Option Json

-- A record is given as an object, where unknown names are ignored, or as an array of its fields in
-- their order of declaration, where fields may be missing at the end.
def record? (names : List String) : Json → Option Fields
  | obj fields => some fun name => Dict.get? fields name
  | arr items =>
    if items.length ≤ names.length then some fun name => Dict.get? (names.zip items) name
    else none
  | _ => none

namespace Fields

variable {α : Type}

def required (fields : Fields) (name : String) (read : Json → Option α) : Option α :=
  (fields name).bind read

-- A field with a default may be absent, but null does not stand for its absence.
def withDefault (fields : Fields) (name : String) (default : α) (read : Json → Option α) :
    Option α :=
  match fields name with
  | none => some default
  | some value => read value

-- An optional field may be absent or null.
def optional (fields : Fields) (name : String) (read : Json → Option α) : Option (Option α) :=
  match fields name with
  | none => some none
  | some null => some none
  | some value => (read value).map some

end Fields

def listOf? {α : Type} (read : Json → Option α) (json : Json) : Option (List α) :=
  json.items?.bind (List.mapM read)

def dictOf? {α : Type} (read : Json → Option α) (json : Json) : Option (Dict String α) :=
  json.fields?.bind (Dict.mapValues? read)

-- A null value means absence.
def nullable? {α : Type} (read : Json → Option α) : Json → Option (Option α)
  | null => some none
  | json => (read json).map some

-- A field that is written only if it is present.
def present (name : String) : Option Json → List (String × Json)
  | none => []
  | some value => [(name, value)]

end SceneLink.Json
