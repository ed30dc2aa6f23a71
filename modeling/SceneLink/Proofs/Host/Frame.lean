import SceneLink.Host.Session
import SceneLink.Proofs.Link.Outbox
import SceneLink.Proofs.Link.Procedure

namespace SceneLink

namespace World

theorem runEdit_world {α : Type} (w : World) (root : Node) (edit : Edit (Node × α)) :
    ∃ scene, (w.runEdit root edit).world = { w with scene := scene } := by
  unfold runEdit
  split <;> exact ⟨_, rfl⟩

theorem assign_world (w : World) (root : Node) (path : Path) (expr : Expression) :
    ∃ scene, (w.assign root path expr).world = { w with scene := scene } :=
  runEdit_world w root _

theorem set_world (w : World) (root : Node) (path : Path) (value : Node) :
    ∃ scene, (w.set root path value).world = { w with scene := scene } :=
  runEdit_world w root _

end World

namespace Host

def setScene (h : Host) (scene : Scene) : Host := { h with world := { h.world with scene := scene } }

-- At most the scene has changed.
def Still (h k : Host) : Prop := ∃ scene, k = h.setScene scene

theorem Still.refl (h : Host) : Still h h := ⟨h.world.scene, rfl⟩

theorem Still.trans {h k l : Host} (hk : Still h k) (kl : Still k l) : Still h l := by
  obtain ⟨scene, rfl⟩ := hk
  obtain ⟨last, rfl⟩ := kl
  exact ⟨last, rfl⟩

section Scene

-- A new scene takes the place of the old one, or the step fails.
theorem still_of_scene (result : Except HostError Scene) (h : Host) :
    Still h ((Procedure.ofExcept result >>= fun scene =>
      setWorld { h.world with scene := scene } : Action Unit) h).value.2 := by
  cases result with
  | ok scene => exact ⟨scene, rfl⟩
  | error e => exact .refl h

theorem deliver_still (object : Handle) (events : List TemplateEvent) (h : Host) :
    Still h (deliver object events h).value.2 :=
  still_of_scene _ h

theorem attach_still (child : Handle) (parent : String) (stays : Bool) (h : Host) :
    Still h (attach child parent stays h).value.2 :=
  still_of_scene _ h

theorem assign_still (object : Handle) (text : String) (raw : Json) (h : Host) :
    Still h (assign object text raw h).value.2 := by
  unfold assign
  rw [Procedure.bind_value, Procedure.ofExcept_value]
  cases (Path.parse text).mapError fun e => HostError.access (.path e) with
  | error e => exact .refl h
  | ok path =>
      dsimp only
      rw [Procedure.bind_value, Procedure.ofExcept_value]
      cases (Expression.ofJson raw).mapError fun e => HostError.access (.expression e) with
      | error e => exact .refl h
      | ok expr =>
          dsimp only
          rw [Procedure.bind_value, Procedure.get_value]
          dsimp only
          obtain ⟨scene, hscene⟩ := h.world.assign_world (.object object) path expr
          have hset : (setWorld (h.world.assign (.object object) path expr).world h).value =
              (.ok (), h.setScene scene) := by
            rw [hscene]
            rfl
          rw [Procedure.bind_value, hset]
          dsimp only
          rw [Procedure.bind_value, Procedure.ofExcept_value]
          cases (h.world.assign (.object object) path expr).result.mapError HostError.access <;>
            exact ⟨scene, rfl⟩

theorem applyUpdate_still (id : String) (object : Handle) (assignments : Dict String Json) (h : Host) :
    ∃ k reported, (applyUpdate id object assignments h).value = (.ok reported, k) ∧ Still h k := by
  induction assignments generalizing h with
  | nil => exact ⟨h, [], rfl, .refl h⟩
  | cons entry rest ih =>
      obtain ⟨text, raw⟩ := entry
      have hassign := assign_still object text raw h
      obtain ⟨k, reported, hrest, hstill⟩ := ih (assign object text raw h).value.2
      have hvalue : ∃ all, (applyUpdate id object ((text, raw) :: rest) h).value = (.ok all, k) := by
        unfold applyUpdate
        rw [Procedure.bind_value, Procedure.outcome_value]
        dsimp only
        cases (assign object text raw h).value.1 with
        | error e =>
            dsimp only
            rw [Procedure.bind_value, Procedure.log_value]
            dsimp only
            rw [Procedure.bind_value, hrest]
            exact ⟨_, rfl⟩
        | ok json =>
            dsimp only
            rw [Procedure.bind_value, hrest]
            cases json <;> exact ⟨_, rfl⟩
      obtain ⟨all, hall⟩ := hvalue
      exact ⟨k, all, hall, hassign.trans hstill⟩

end Scene

end Host

end SceneLink
