import SceneLink.Motion.Lerp
import SceneLink.World.Write

namespace SceneLink

-- A tween waits for its delay, captures the value it starts from once, and then writes interpolated
-- values until it lands on its target.
structure Tween where
  objectId : String
  path : Path
  -- Captured when the delay has passed.
  source : Option Json := none
  target : Json
  duration : Double
  delay : Double
  elapsed : Double := 0
  ease : Ease
  callbackId : Option String

structure Completed where
  objectId : String
  callbackId : Option String
  value : Json

namespace Tween

def ofAnimation (objectId : String) (animation : Animation) (defaultEase : Ease) : Tween where
  objectId := objectId
  path := animation.path
  target := animation.target
  duration := animation.duration.max 0
  delay := animation.delay.max 0
  ease := animation.ease.getD defaultEase
  callbackId := animation.callbackId

-- The share of the duration that has passed since the delay, at most one.
def progress (t : Tween) : Double :=
  if t.duration.isZero then 1 else ((t.elapsed - t.delay) / t.duration).min 1

-- The value that the tween starts from: the one it captured, or the one its path has now.
def start (t : Tween) (w : World) (root : Node) : Except AccessError Json :=
  match t.source with
  | some json => .ok json
  | none => do (← w.get root t.path).toValue w.scene.describe

-- At the end it is the target itself, and not an interpolation that comes close.
def valueAt (t : Tween) (source : Json) : Except AccessError Json :=
  if Double.le 1 t.progress then do
    let _ ← Json.lerp source t.target 1
    return t.target
  else Json.lerp source t.target (t.ease.apply t.progress)

inductive Stepped where
  | running (t : Tween)
  | completed (done : Completed)

def finish (t : Tween) (source value : Json) : Stepped :=
  if t.progress.lt 1 then .running { t with source := some source }
  else .completed { objectId := t.objectId, callbackId := t.callbackId, value }

def step (t : Tween) (w : World) : World × Except AccessError Stepped :=
  let planned : Except AccessError (Node × Json × Json) := do
    let root ← match w.registry.get? t.objectId with
      | some h => pure (Node.object h)
      | none => throw (.unknownObject t.objectId)
    let source ← t.start w root
    return (root, source, ← t.valueAt source)
  match planned with
  | .error e => (w, .error e)
  | .ok (root, source, value) =>
    let written := w.set root t.path (.value value)
    (written.world, written.result.map fun _ => t.finish source value)

end Tween

-- The tweens that run, in the order they were started.
abbrev Animator := List Tween

namespace Animator

def start (animator : Animator) (objectId : String) (animation : Animation)
    (defaultEase : Ease) : Animator :=
  animator ++ [Tween.ofAnimation objectId animation defaultEase]

def cancel (animator : Animator) (objectId : String) : Nat × Animator :=
  let kept := animator.filter fun t => t.objectId ≠ objectId
  (animator.length - kept.length, kept)

structure Advanced where
  world : World
  running : Animator
  completed : List Completed

def advance (animator : Animator) (w : World) (dt : Double) : Logged Log.Line Advanced :=
  match animator with
  | [] => return ⟨w, [], []⟩
  | t :: rest => do
    let t := { t with elapsed := t.elapsed + dt }
    if t.elapsed.lt t.delay then
      let after ← advance rest w dt
      return { after with running := t :: after.running }
    else
      let (w, result) := t.step w
      match result with
      | .ok (.running t) =>
        let after ← advance rest w dt
        return { after with running := t :: after.running }
      | .ok (.completed done) =>
        let after ← advance rest w dt
        return { after with completed := done :: after.completed }
      | .error e =>
        Log.warn s!"Dropping animation of {t.path.text} on {t.objectId}: {e.message}"
        advance rest w dt

end Animator

end SceneLink
