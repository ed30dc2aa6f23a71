import SceneLink.Json.Basic

namespace SceneLink

inductive Ease where
  | linear | easeInQuad | easeOutQuad | easeInOutQuad | easeInCubic | easeOutCubic
  | easeInOutCubic
deriving DecidableEq

namespace Ease

def name : Ease → String
  | linear => "linear"
  | easeInQuad => "easeInQuad"
  | easeOutQuad => "easeOutQuad"
  | easeInOutQuad => "easeInOutQuad"
  | easeInCubic => "easeInCubic"
  | easeOutCubic => "easeOutCubic"
  | easeInOutCubic => "easeInOutCubic"

def all : List Ease :=
  [linear, easeInQuad, easeOutQuad, easeInOutQuad, easeInCubic, easeOutCubic, easeInOutCubic]

def ofName? (name : String) : Option Ease := all.find? fun ease => ease.name = name

-- A curve is given by its name, or as an object with its name for a field that is null.
def ofJson? : Json → Option Ease
  | .str name => ofName? name
  | .obj [(name, .null)] => ofName? name
  | _ => none

def toJson (ease : Ease) : Json := .str ease.name

def half : Double := Double.ofUnits false Double.one 2

def apply (ease : Ease) (t : Double) : Double :=
  let t := t.clamp 0 1
  match ease with
  | linear => t
  | easeInQuad => t * t
  | easeOutQuad => t * (2 - t)
  | easeInOutQuad => if t.lt half then 2 * t * t else -1 + (4 - 2 * t) * t
  | easeInCubic => t * t * t
  | easeOutCubic =>
    let u := t - 1
    u * u * u + 1
  | easeInOutCubic =>
    if t.lt half then 4 * t * t * t
    else
      let u := 2 * t - 2
      half * u * u * u + 1

end Ease

end SceneLink
