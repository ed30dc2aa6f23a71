import SceneLink.Scene.Error
import SceneLink.Json.Printer

namespace SceneLink.Json

def between (a b t : Double) : Json := ofDouble (a + (b - a) * t)

def lerpItems? (t : Double) : List Json → List Json → Option (List Json)
  | [], [] => some []
  | .num a :: as, .num b :: bs =>
    (lerpItems? t as bs).map (between a.toDouble b.toDouble t :: ·)
  | _, _ => none

-- Between two numbers, or item by item between two arrays of numbers of one length.
def lerp? (source target : Json) (t : Double) : Option Json :=
  match source, target with
  | .num a, .num b => some (between a.toDouble b.toDouble t)
  | .arr a, .arr b => (lerpItems? t a b).map arr
  | _, _ => none

def lerp (source target : Json) (t : Double) : Except AccessError Json :=
  match lerp? source target t with
  | some json => .ok json
  | none =>
    .error (.typeMismatch "number or numeric array" s!"{source.text} -> {target.text}")

end SceneLink.Json
