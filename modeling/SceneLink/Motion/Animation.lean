import SceneLink.Motion.Ease
import SceneLink.Path.Basic
import SceneLink.Json.Record

namespace SceneLink

structure Animation where
  path : Path
  -- A number or an array of numbers.
  target : Json
  -- In seconds, as the delay.
  duration : Double
  delay : Double := 0
  ease : Option Ease := none
  callbackId : Option String := none

def Path.ofJson? : Json → Option Path
  | .str text => match Path.parse text with
    | .ok path => some path
    | .error _ => none
  | _ => none

def Path.toJson (path : Path) : Json := .str path.text

namespace Animation

def ofJson? (json : Json) : Option Animation := do
  let fields ← json.record? ["path", "to", "duration", "delay", "ease", "callbackID"]
  let path ← fields.required "path" Path.ofJson?
  let target ← fields.required "to" some
  let duration ← fields.required "duration" Json.double?
  let delay ← fields.withDefault "delay" 0 Json.double?
  let ease ← fields.optional "ease" Ease.ofJson?
  let callbackId ← fields.optional "callbackID" Json.str?
  return { path, target, duration, delay, ease, callbackId }

-- The fields in their order of declaration; a delay of zero is left out.
def fields (a : Animation) : List (String × Json) :=
  [("path", a.path.toJson), ("to", a.target), ("duration", Json.ofFloat a.duration)]
    ++ (if a.delay.isZero then [] else [("delay", Json.ofFloat a.delay)])
    ++ Json.present "ease" (a.ease.map Ease.toJson)
    ++ Json.present "callbackID" (a.callbackId.map Json.str)

def toJson (a : Animation) : Json := Json.ofFields a.fields

-- The text with the fields in their order of declaration.
def text (a : Animation) : String :=
  String.ofList ('{' :: Json.renderFields a.fields ++ ['}'])

end Animation

end SceneLink
