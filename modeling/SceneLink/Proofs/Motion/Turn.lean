import SceneLink.Proofs.Motion.Animator
import SceneLink.Proofs.World.Conditional

namespace SceneLink

namespace Double

variable {x y : Double}

theorem min_ne_nan (x : Double) (hy : y ≠ nan) : x.min y ≠ nan := by
  have hnan {z : Double} (hz : ¬z.isNan = true) : z ≠ nan := by
    rintro rfl
    exact hz rfl
  unfold Double.min
  split
  · exact hy
  · next hx =>
    split
    · exact hnan hx
    · split
      · exact hy
      · exact hnan hx

theorem lt_or_le (hx : x ≠ nan) (hy : y ≠ nan) : x.lt y = true ∨ y.le x = true := by
  unfold le
  cases x with
  | nan => exact absurd rfl hx
  | infinite a =>
      cases y with
      | nan => exact absurd rfl hy
      | infinite b => cases a <;> cases b <;> simp [lt, same]
      | finite y => cases a <;> simp [lt]
  | finite x =>
      cases y with
      | nan => exact absurd rfl hy
      | infinite b => cases b <;> simp [lt]
      | finite y =>
          simp only [lt, same, decide_eq_true_eq, Bool.or_eq_true]
          omega

end Double

namespace Tween

variable {t u : Tween} {source value : Json} {done : Completed}

theorem progress_ne_nan (t : Tween) : t.progress ≠ .nan := by
  have hone : (1 : Double) ≠ .nan := by decide +kernel
  unfold progress
  split
  · exact hone
  · exact Double.min_ne_nan _ hone

-- What ends a tween is also what puts its target in place of an interpolation.
theorem le_progress (h : t.progress.lt 1 = false) : Double.le 1 t.progress = true := by
  rcases Double.lt_or_le t.progress_ne_nan (by decide +kernel : (1 : Double) ≠ .nan) with hlt | hle
  · rw [h] at hlt
    cases hlt
  · exact hle

theorem start_of_source (h : t.source = some source) (w : World) (root : Node) : t.start w root = .ok source := by
  unfold start
  rw [h]

def landed (t : Tween) : Completed := { objectId := t.objectId, callbackId := t.callbackId, value := t.target }

theorem finish_running (h : t.finish source value = .running u) : u = { t with source := some source } := by
  unfold finish at h
  split at h
  · cases h
    rfl
  · cases h

theorem finish_completed (hvalue : t.valueAt source = .ok value)
    (h : t.finish source value = .completed done) :
    value = t.target ∧ done = t.landed := by
  unfold finish at h
  split at h
  · cases h
  · next hlt =>
    unfold valueAt at hvalue
    rw [if_pos (le_progress (by simpa using hlt))] at hvalue
    obtain ⟨_, -, htarget⟩ := ok_of_bind hvalue
    cases htarget
    cases h
    exact ⟨rfl, rfl⟩

inductive Fate where
  | running (t : Tween)
  | completed (done : Completed)
  | dropped (cause : AccessError)
  | cancelled

structure Turn where
  tween : Tween
  world : World
  dt : Double

namespace Turn

def moved (turn : Turn) : Tween := { turn.tween with elapsed := turn.tween.elapsed + turn.dt }

def waits (turn : Turn) : Bool := turn.moved.elapsed.lt turn.moved.delay

def run (turn : Turn) : World × Fate :=
  if turn.waits then (turn.world, .running turn.moved)
  else match turn.moved.step turn.world with
    | (w, .ok (.running t)) => (w, .running t)
    | (w, .ok (.completed done)) => (w, .completed done)
    | (w, .error e) => (w, .dropped e)

-- The value that the tween starts from is looked up in this turn.
def reads (turn : Turn) : Bool := !turn.waits && turn.tween.source.isNone

def StartsFrom (turn : Turn) (source : Json) : Prop :=
  ∃ handle, turn.world.registry.get? turn.tween.objectId = some handle ∧
    turn.moved.start turn.world (.object handle) = .ok source

def write (turn : Turn) (handle : Handle) (value : Json) : World.Written Unit :=
  turn.world.set (.object handle) turn.tween.path (.value value)

-- The value is due: what the tween makes of the value that it starts from.
structure Due (turn : Turn) (handle : Handle) (value : Json) : Prop where
  waits : turn.waits = false
  found : turn.world.registry.get? turn.tween.objectId = some handle
  value : ∃ source, turn.moved.start turn.world (.object handle) = .ok source ∧
    turn.moved.valueAt source = .ok value

-- All that a turn can do: it waits, it has nothing to write, its write fails, or it writes; and
-- then the tween goes on with the value that it has started from, or it has landed.
inductive Does (turn : Turn) : World → Fate → Prop
  | waits (h : turn.waits = true) : Does turn turn.world (.running turn.moved)
  | quits (cause : AccessError) (h : turn.waits = false) : Does turn turn.world (.dropped cause)
  | fails {handle : Handle} {value : Json} {cause : AccessError} (h : turn.Due handle value)
      (hresult : (turn.write handle value).result = .error cause) :
      Does turn (turn.write handle value).world (.dropped cause)
  | goesOn {handle : Handle} {source value : Json} (h : turn.Due handle value) (hstarts : turn.StartsFrom source)
      (hresult : (turn.write handle value).result = .ok ()) :
      Does turn (turn.write handle value).world (.running { turn.moved with source := some source })
  | lands {handle : Handle} (h : turn.Due handle turn.tween.target)
      (hresult : (turn.write handle turn.tween.target).result = .ok ()) :
      Does turn (turn.write handle turn.tween.target).world (.completed turn.tween.landed)

variable {turn : Turn}

theorem does (turn : Turn) : turn.Does turn.run.1 turn.run.2 := by
  unfold run
  by_cases hwaits : turn.waits = true
  · rw [if_pos hwaits]
    exact .waits hwaits
  · have hdue : turn.waits = false := by simpa using hwaits
    rw [if_neg hwaits, Animator.step_eq]
    cases hfound : turn.world.registry.get? turn.moved.objectId with
    | none => exact .quits _ hdue
    | some handle =>
        dsimp only
        cases hstart : turn.moved.start turn.world (.object handle) with
        | error e => exact .quits e hdue
        | ok source =>
            dsimp only
            cases hvalue : turn.moved.valueAt source with
            | error e => exact .quits e hdue
            | ok value =>
                have hwrites : turn.Due handle value := ⟨hdue, hfound, source, hstart, hvalue⟩
                have hwrite : turn.world.set (.object handle) turn.moved.path (.value value) =
                    turn.write handle value := rfl
                dsimp only
                rw [hwrite]
                cases hresult : (turn.write handle value).result with
                | error e => exact .fails hwrites hresult
                | ok _ =>
                    cases hfinish : turn.moved.finish source value with
                    | running t =>
                        cases finish_running hfinish
                        exact .goesOn hwrites ⟨handle, hfound, hstart⟩ hresult
                    | completed done =>
                        obtain ⟨rfl, rfl⟩ := finish_completed hvalue hfinish
                        exact .lands hwrites hresult

theorem run_waiting (h : turn.waits = true) : turn.run = (turn.world, .running turn.moved) := by
  unfold run
  rw [if_pos h]

theorem run_ne_cancelled (turn : Turn) : turn.run.2 ≠ .cancelled := by
  intro hcancelled
  have hdoes := turn.does
  rw [hcancelled] at hdoes
  generalize turn.run.1 = w at hdoes
  cases hdoes

theorem writes (turn : Turn) : turn.run.1 = turn.world ∨
    ∃ handle value, turn.Due handle value ∧ turn.run.1 = (turn.write handle value).world := by
  have hdoes := turn.does
  generalize turn.run = ran at hdoes ⊢
  cases ran with
  | mk w fate =>
      cases hdoes with
      | waits _ | quits _ _ => exact .inl rfl
      | fails h _ | goesOn h _ _ | lands h _ => exact .inr ⟨_, _, h, rfl⟩

end Turn

end Tween

end SceneLink
