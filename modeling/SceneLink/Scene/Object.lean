import SceneLink.Scene.Node

namespace SceneLink

structure Entity where
  name : String
  tag : String := ""
  active : Bool := true
  position : Vec3 := Vec3.origin
  rotation : Vec3 := Vec3.origin
  scale : Vec3 := Vec3.ones
  components : List Handle := []
  children : List Handle := []
  -- The names of the events received, in order.
  receivedEvents : List String := []

structure Component where
  typeName : String
  enabled : Bool := true
  fields : Dict String Json := []

inductive Object where
  | entity (e : Entity)
  | component (c : Component)

-- The result of a method, which may change its object even where it fails.
structure Called (α : Type) where
  target : α
  result : Except String Json

namespace Entity

def typeName : String := "GameObject"

-- The members of an entity. The last two can only be read.
inductive Member where
  | name | tag | active | position | rotation | scale | childCount | receivedEvents
deriving DecidableEq

def Member.ofName? : String → Option Member
  | "name" => some name
  | "tag" => some tag
  | "active" => some active
  | "position" => some position
  | "rotation" => some rotation
  | "scale" => some scale
  | "childCount" => some childCount
  | "receivedEvents" => some receivedEvents
  | _ => none

def read (e : Entity) : Member → Json
  | .name => .str e.name
  | .tag => .str e.tag
  | .active => .bool e.active
  | .position => e.position.toJson
  | .rotation => e.rotation.toJson
  | .scale => e.scale.toJson
  | .childCount => Json.ofNat e.children.length
  | .receivedEvents => Json.ofStrings e.receivedEvents

def member? (e : Entity) (name : String) : Option Json := (Member.ofName? name).map e.read

def setMember (found : Node → String) (e : Entity) (name : String) (value : Node) :
    Except AccessError Entity :=
  match Member.ofName? name with
  | none => .error (.noSuchMember name typeName)
  | some .name => (value.toText found).map fun s => { e with name := s }
  | some .tag => (value.toText found).map fun s => { e with tag := s }
  | some .active => (value.toBool found).map fun b => { e with active := b }
  | some .position => (value.toVec3 found).map fun v => { e with position := v }
  | some .rotation => (value.toVec3 found).map fun v => { e with rotation := v }
  | some .scale => (value.toVec3 found).map fun v => { e with scale := v }
  | some .childCount => .error (.readOnly name typeName)
  | some .receivedEvents => .error (.readOnly name typeName)

def setActive (e : Entity) (args : List Json) : Called Entity :=
  match args.head?.bind Json.bool? with
  | some b => ⟨{ e with active := b }, .ok .null⟩
  | none => ⟨e, .error "SetActive expects a boolean"⟩

def moved (e : Entity) (position : Vec3) : Entity := { e with position := position }

-- The axes move one after the other, so an axis moved before a bad argument stays moved.
def translateBy (e : Entity) (x y z : Json) : Called Entity :=
  let bad (e : Entity) (arg : Json) : Called Entity :=
    ⟨e, .error s!"Translate expects numbers, got {arg.text}"⟩
  match x.double? with
  | none => bad e x
  | some dx =>
    let e := e.moved { e.position with x := e.position.x + dx }
    match y.double? with
    | none => bad e y
    | some dy =>
      let e := e.moved { e.position with y := e.position.y + dy }
      match z.double? with
      | none => bad e z
      | some dz =>
        let e := e.moved { e.position with z := e.position.z + dz }
        ⟨e, .ok e.position.toJson⟩

def translate (e : Entity) : List Json → Called Entity
  | [x, y, z] => e.translateBy x y z
  | args => ⟨e, .error s!"Translate expects 3 numbers, got {args.length}"⟩

def invoke? (e : Entity) (method : String) (args : List Json) : Option (Called Entity) :=
  match method with
  | "SetActive" => some (e.setActive args)
  | "Translate" => some (e.translate args)
  | "GetChildCount" => some ⟨e, .ok (Json.ofNat e.children.length)⟩
  | _ => none

end Entity

namespace Component

def member? (c : Component) (name : String) : Option Json :=
  if name = "enabled" then some (.bool c.enabled) else c.fields.get? name

def put (found : Node → String) (c : Component) (name : String) (value : Node) :
    Except AccessError Component :=
  (value.toValue found).map fun json => { c with fields := c.fields.insert name json }

-- Only a field that exists can be set as a member; a key may be new.
def setMember (found : Node → String) (c : Component) (name : String) (value : Node) :
    Except AccessError Component :=
  if name = "enabled" then (value.toBool found).map fun b => { c with enabled := b }
  else if c.fields.contains name then c.put found name value
  else .error (.noSuchMember name c.typeName)

end Component

namespace Object

def typeName : Object → String
  | entity _ => Entity.typeName
  | component c => c.typeName

def member? : Object → String → Option Json
  | entity e, name => e.member? name
  | component c, name => c.member? name

def setMember (found : Node → String) (object : Object) (name : String) (value : Node) :
    Except AccessError Object :=
  match object with
  | entity e => (e.setMember found name value).map entity
  | component c => (c.setMember found name value).map component

-- The children of an entity are its ordered contents.
def item (object : Object) (index : Nat) : Except AccessError Node :=
  match object with
  | entity e => match e.children[index]? with
    | some child => .ok (.object child)
    | none => .error (.indexOutOfRange index e.children.length)
  | component c => .error (.notIndexable c.typeName)

def setItem (object : Object) : Except AccessError Object := .error (.notIndexable object.typeName)

def key (object : Object) (key : String) : Except AccessError Node :=
  match object with
  | entity _ => .error (.notKeyed Entity.typeName)
  | component c => match c.fields.get? key with
    | some json => .ok (.value json)
    | none => .error (.noSuchKey key)

def setKey (found : Node → String) (object : Object) (key : String) (value : Node) :
    Except AccessError Object :=
  match object with
  | entity _ => .error (.notKeyed Entity.typeName)
  | component c => (c.put found key value).map component

def invoke? (object : Object) (method : String) (args : List Json) : Option (Called Object) :=
  match object with
  | entity e => (e.invoke? method args).map fun called => ⟨entity called.target, called.result⟩
  | component _ => none

def receive (object : Object) (event : String) : Object :=
  match object with
  | entity e => entity { e with receivedEvents := e.receivedEvents ++ [event] }
  | component c => component c

def components : Object → List Handle
  | entity e => e.components
  | component _ => []

def children : Object → List Handle
  | entity e => e.children
  | component _ => []

end Object

end SceneLink
