import SceneLink.Scene.Object

namespace SceneLink

inductive Usage where
  | reading | writing
deriving DecidableEq

-- An object in use for reading cannot be written, and one in use for writing can be neither read
-- nor written. While an object is written, it counts as in use for writing itself.
structure Scene where
  objects : List Object := []
  uses : List (Handle × Usage) := []

namespace Scene

def empty : Scene := {}

def canRead (s : Scene) (h : Handle) : Bool := s.uses.all fun use => use ≠ (h, .writing)

def canWrite (s : Scene) (h : Handle) : Bool := s.uses.all fun use => use.1 ≠ h

def inUse (s : Scene) (h : Handle) (usage : Usage) : Scene := { s with uses := (h, usage) :: s.uses }

def readable? (s : Scene) (h : Handle) : Option Object :=
  if s.canRead h then s.objects[h]? else none

def read (s : Scene) (h : Handle) : Except AccessError Object :=
  match s.readable? h with
  | some object => .ok object
  | none => .error .objectBusy

def writable (s : Scene) (h : Handle) : Except AccessError Object :=
  match if s.canWrite h then s.objects[h]? else none with
  | some object => .ok object
  | none => .error .objectBusy

def put (s : Scene) (h : Handle) (object : Object) : Scene :=
  { s with objects := s.objects.set h object }

def add (s : Scene) (object : Object) : Handle × Scene :=
  (s.objects.length, { s with objects := s.objects ++ [object] })

-- The type name of an object that cannot be read is not known.
def describe (s : Scene) : Node → String
  | .value json => json.kindName
  | .object h => match s.readable? h with
    | some object => object.typeName
    | none => "object"

def describeWhileWriting (s : Scene) (h : Handle) (node : Node) : String :=
  (s.inUse h .writing).describe node

def modify (s : Scene) (h : Handle)
    (change : (Node → String) → Object → Except AccessError Object) : Except AccessError Scene := do
  let object ← s.writable h
  let object ← change (s.describeWhileWriting h) object
  return s.put h object

def setMember (s : Scene) (h : Handle) (name : String) (value : Node) : Except AccessError Scene :=
  s.modify h fun found object => object.setMember found name value

def setKey (s : Scene) (h : Handle) (key : String) (value : Node) : Except AccessError Scene :=
  s.modify h fun found object => object.setKey found key value

def setItem (s : Scene) (h : Handle) : Except AccessError Scene :=
  s.modify h fun _ object => object.setItem

def component? (s : Scene) (object : Object) (typeName : String) : Option Handle :=
  object.components.find? fun h => ((s.readable? h).map Object.typeName) = some typeName

def nameOf? (s : Scene) (h : Handle) : Option String :=
  ((s.readable? h).bind (·.member? "name")).bind Json.str?

def child? (s : Scene) (object : Object) (name : String) : Option Handle :=
  object.children.find? fun h => s.nameOf? h = some name

def addComponent (s : Scene) (h component : Handle) : Except AccessError Scene :=
  s.modify h fun found object => match object with
    | .entity e => .ok (.entity { e with components := e.components ++ [component] })
    | .component c => .error (.noSuchComponent (found (.object component)) c.typeName)

-- Moves `child`, if it has a position, so that it keeps its place once it hangs below an
-- object at `origin`.
def rebase (s : Scene) (child : Handle) (origin : Vec3) : Except AccessError Scene := do
  let object ← s.writable child
  match object.member? "position" with
  | none => return s
  | some position =>
    let world ← Node.toVec3 (s.describeWhileWriting child) (.value position)
    s.setMember child "position" (.value (world.sub origin).toJson)

-- If the place of the child is to stay, its position becomes relative to the entity.
def addChild (s : Scene) (h child : Handle) (stays : Bool) : Except AccessError Scene := do
  match ← s.writable h with
  | .component c =>
    throw (.noSuchChild (s.describeWhileWriting h (.object child)) c.typeName)
  | .entity e =>
    let moved ← if stays then (s.inUse h .writing).rebase child e.position else .ok s
    return { s with objects := moved.objects }.put h
      (.entity { e with children := e.children ++ [child] })

-- What calling a method leaves behind: the scene, and the value or the failure.
structure Call where
  scene : Scene
  result : Except AccessError Json

def call (s : Scene) (h : Handle) (method : String) (args : List Json) : Call :=
  match s.writable h with
  | .error e => ⟨s, .error e⟩
  | .ok object => match object.invoke? method args with
    | none => ⟨s, .error (.noSuchMethod method object.typeName)⟩
    | some called =>
      ⟨s.put h called.target, called.result.mapError fun reason => .methodFailed method reason⟩

def deliver (s : Scene) (h : Handle) (events : List String) : Except AccessError Scene :=
  s.modify h fun _ object => .ok (events.foldl Object.receive object)

end Scene

inductive Blueprint where
  | entity (name : String) (position : Option Vec3) (components children : List Blueprint)
  | component (typeName : String) (fields : List (String × Json))
  -- The object that is there already.
  | existing (handle : Handle)

namespace Blueprint

mutual

def build : Blueprint → Scene → Handle × Scene
  | entity name position components children, s =>
    let (components, s) := buildAll components s
    let (children, s) := buildAll children s
    s.add (.entity { name, position := position.getD Vec3.origin, components, children })
  | component typeName fields, s =>
    s.add (.component { typeName, fields := Dict.ofList fields })
  | existing handle, s => (handle, s)

def buildAll : List Blueprint → Scene → List Handle × Scene
  | [], s => ([], s)
  | plan :: plans, s =>
    let (h, s) := build plan s
    let (hs, s) := buildAll plans s
    (h :: hs, s)

end

end Blueprint

end SceneLink
