import SceneLink.Expression.Basic

namespace SceneLink

inductive AccessError where
  | noSuchMember (name typeName : String)
  | noSuchComponent (name typeName : String)
  | noSuchChild (name typeName : String)
  | noSuchMethod (name typeName : String)
  | noSuchKey (key : String)
  | noSuchResource (name : String)
  | indexOutOfRange (index length : Nat)
  | unknownStepType (tag : String)
  | unknownObject (id : String)
  | duplicateObject (id : String)
  | notIndexable (typeName : String)
  | notKeyed (typeName : String)
  | notAnObject (step found : String)
  | notAssignable (step : String)
  | readOnly (name typeName : String)
  | invalidLiteral (type value : String)
  | typeMismatch (expected found : String)
  | attachToSelf (parent : String)
  -- The object is in use.
  | objectBusy
  | methodFailed (name reason : String)
  | expression (cause : ExpressionError)
  | path (cause : ParseError)
deriving DecidableEq

def AccessError.message : AccessError → String
  | noSuchMember name typeName => s!"{typeName} has no member `{name}`"
  | noSuchComponent name typeName => s!"{typeName} has no component `{name}`"
  | noSuchChild name typeName => s!"{typeName} has no child `{name}`"
  | noSuchMethod name typeName => s!"{typeName} has no method `{name}`"
  | noSuchKey key => s!"no key `{key}`"
  | noSuchResource name => s!"no resource `{name}`"
  | indexOutOfRange index length => s!"index {index} out of range for length {length}"
  | unknownStepType tag => s!"unknown step type `{tag}`"
  | unknownObject id => s!"unknown object ID `{id}`"
  | duplicateObject id => s!"object ID `{id}` is already registered"
  | notIndexable typeName => s!"{typeName} is not an ordered container"
  | notKeyed typeName => s!"{typeName} is not a keyed container"
  | notAnObject step found => s!"`{step}` needs a live object, found {found}"
  | notAssignable step => s!"`{step}` steps cannot be assigned"
  | readOnly name typeName => s!"member `{name}` of {typeName} is read-only"
  | invalidLiteral type value => s!"invalid {type} literal `{value}`"
  | typeMismatch expected found => s!"expected {expected}, found {found}"
  | attachToSelf parent => s!"cannot attach an object to itself via `{parent}`"
  | objectBusy => "object is busy"
  | methodFailed name reason => s!"method `{name}` failed: {reason}"
  | expression cause => cause.message
  | path cause => cause.message

end SceneLink
