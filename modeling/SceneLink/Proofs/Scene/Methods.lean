import Mathlib.Data.List.Basic
import SceneLink.Proofs.Scene.Basic
import SceneLink.Proofs.World.Edit

namespace SceneLink

-- The numbers that a list of arguments starts with.
def Json.leadingDoubles : List Json → List Double
  | num n :: args => n.toDouble :: leadingDoubles args
  | _ => []

def Vec3.movedBy (v : Vec3) : List Double → Vec3
  | [] => v
  | [dx] => ⟨v.x + dx, v.y, v.z⟩
  | [dx, dy] => ⟨v.x + dx, v.y + dy, v.z⟩
  | dx :: dy :: dz :: _ => ⟨v.x + dx, v.y + dy, v.z + dz⟩

namespace Entity

variable {e : Entity} {method reason : String} {args : List Json} {called : Called Entity}

def leftBy (e : Entity) (method : String) (args : List Json) : Entity :=
  if method = "Translate" ∧ args.length = 3 then e.moved (e.position.movedBy (Json.leadingDoubles args))
  else e

theorem leftBy_of_ne (hmethod : method ≠ "Translate") : e.leftBy method args = e :=
  if_neg fun h => hmethod h.1

theorem leftBy_position (e : Entity) (method : String) (args : List Json) :
    e.leftBy method args = e.moved (e.leftBy method args).position := by
  unfold leftBy
  split <;> rfl

-- A move by something that is no number has not begun.
theorem leftBy_of_first {x y z : Json} (hx : x.double? = none) : e.leftBy method [x, y, z] = e := by
  have hleading : Json.leadingDoubles [x, y, z] = [] := by
    cases x with
    | num n => cases hx
    | _ => rfl
  unfold leftBy
  rw [hleading]
  split <;> rfl

theorem setActive_failed (hfailed : (e.setActive args).result = .error reason) :
    (e.setActive args).target = e := by
  unfold setActive at hfailed ⊢
  split
  · next b hb =>
    rw [hb] at hfailed
    cases hfailed
  · rfl

theorem translateBy_failed {x y z : Json} (hfailed : (e.translateBy x y z).result = .error reason) :
    (e.translateBy x y z).target = e.moved (e.position.movedBy (Json.leadingDoubles [x, y, z])) := by
  cases x with
  | num dx =>
      cases y with
      | num dy =>
          cases z with
          | num dz => cases hfailed
          | _ => rfl
      | _ => rfl
  | _ => rfl

theorem translate_failed (hfailed : (e.translate args).result = .error reason) :
    (e.translate args).target = e.leftBy "Translate" args := by
  unfold translate at hfailed ⊢
  split at hfailed
  · next x y z =>
    rw [leftBy, if_pos ⟨rfl, rfl⟩]
    exact translateBy_failed hfailed
  · next hthree =>
    refine (if_neg fun h => ?_).symm
    obtain ⟨x, y, z, hargs⟩ := List.length_eq_three.1 h.2
    exact hthree x y z hargs

theorem target_of_failed (hinvoke : e.invoke? method args = some called)
    (hfailed : called.result = .error reason) : called.target = e.leftBy method args := by
  unfold invoke? at hinvoke
  split at hinvoke
  · cases hinvoke
    rw [leftBy_of_ne (by decide)]
    exact setActive_failed hfailed
  · cases hinvoke
    exact translate_failed hfailed
  · cases hinvoke
    cases hfailed
  · cases hinvoke

end Entity

namespace World

variable {w : World} {root : Node} {step : Step} {h : Handle} {object : Object} {method : String}
  {value : Json} {called : Called Object}

-- Assigning to a method calls it with the assigned arguments, and leaves what the call leaves.
theorem setAt_method (hobject : w.scene.writable h = .ok object) (hkind : step.kind = .method)
    (hkey : w.stepKey w.evaluate root step = .ok method)
    (hinvoke : object.invoke? method (arguments value) = some called) :
    (w.setAt root (.object h) step (.value value)).run w.scene =
      ((called.result.mapError fun reason => .methodFailed method reason).map fun _ => Node.object h,
        w.scene.put h called.target) := by
  have hread : (w.reading fun w => w.stepKey w.evaluate root step).run w.scene = (.ok method, w.scene) :=
    Prod.ext hkey rfl
  have hfor : (w.reading fun w => w.objectFor (.object h) step).run w.scene = (.ok h, w.scene) := rfl
  have hvalue : (Edit.toValue (.value value)).run w.scene = (.ok value, w.scene) := rfl
  have hcall : (Edit.call h method (arguments value)).run w.scene =
      (called.result.mapError fun reason => .methodFailed method reason, w.scene.put h called.target) := by
    change ((w.scene.call h method (arguments value)).result, (w.scene.call h method (arguments value)).scene) = _
    unfold Scene.call
    rw [hobject]
    dsimp only
    rw [hinvoke]
  unfold setAt
  rw [hkind]
  dsimp only
  rw [Edit.bind_run, hread]
  dsimp only
  rw [Edit.bind_run, hfor]
  dsimp only
  rw [Edit.bind_run, hvalue]
  dsimp only
  rw [Edit.bind_run, hcall]
  cases called.result <;> rfl

-- A method that fails leaves its object as it was, but for the axes that a move has moved before the first
-- distance that is no number. An assignment to the method fails for the same reason, and leaves the same.
theorem failed_method {e : Entity} {args : List Json} {reason : String} {called : Called Entity}
    (hinvoke : e.invoke? method args = some called) (hfailed : called.result = .error reason) :
    called.target = e.leftBy method args ∧ called.target = e.moved called.target.position ∧
    (called.target ≠ e → method = "Translate" ∧ ∃ n y z, args = [.num n, y, z]) ∧
    (∀ (w : World) (root : Node) (step : Step) (h : Handle) (value : Json),
      w.scene.writable h = .ok (.entity e) → step.kind = .method →
      w.stepKey w.evaluate root step = .ok method → arguments value = args →
      (w.setAt root (.object h) step (.value value)).run w.scene =
        (.error (.methodFailed method reason), w.scene.put h (.entity called.target))) := by
  have htarget : called.target = e.leftBy method args := Entity.target_of_failed hinvoke hfailed
  refine ⟨htarget, ?_, fun hchanged => ?_, fun w root step h value hobject hkind hkey hargs => ?_⟩
  · rw [htarget]
    exact Entity.leftBy_position e method args
  · rw [htarget] at hchanged
    by_cases hmove : method = "Translate" ∧ args.length = 3
    · obtain ⟨x, y, z, rfl⟩ := List.length_eq_three.1 hmove.2
      cases x with
      | num n => exact ⟨hmove.1, n, y, z, rfl⟩
      | _ => exact absurd (Entity.leftBy_of_first rfl) hchanged
    · exact absurd (if_neg hmove) hchanged
  · have hobjectInvoke : (Object.entity e).invoke? method (arguments value) =
        some ⟨.entity called.target, called.result⟩ := by
      rw [hargs]
      change (e.invoke? method args).map _ = _
      rw [hinvoke]
      rfl
    rw [setAt_method hobject hkind hkey hobjectInvoke, hfailed]
    rfl

-- An object at the origin that is told to move by two numbers and a word.
section Crate

def crate : Entity := { name := "Crate" }

def distances : List Json := [Json.ofNat 1, Json.ofNat 2, .str "x"]

def storeroom : World where
  scene := { objects := [.entity crate] }

def moveStep : Step := { kind := .method, value := "Translate" }

theorem failed_method_crate : ∃ called reason, crate.invoke? "Translate" distances = some called ∧
    called.result = .error reason ∧ called.target.position = ⟨1, 2, 0⟩ ∧
    called.target = crate.moved called.target.position ∧
    (storeroom.setAt (.object 0) (.object 0) moveStep (.value (.arr distances))).run storeroom.scene =
      (.error (.methodFailed "Translate" reason), storeroom.scene.put 0 (.entity called.target)) := by
  have hinvoke : crate.invoke? "Translate" distances = some (crate.translate distances) := rfl
  obtain ⟨-, hmoved, -, hset⟩ := failed_method hinvoke rfl
  refine ⟨_, _, hinvoke, rfl, by decide +kernel, hmoved, ?_⟩
  exact hset storeroom (.object 0) moveStep 0 (.arr distances) rfl rfl rfl rfl

-- The call fails, and yet the object has moved.
theorem moved_by_failed_call : ∃ (e : Entity) (method : String) (args : List Json) (called : Called Entity)
    (reason : String), e.invoke? method args = some called ∧ called.result = .error reason ∧
    called.target.position ≠ e.position := by
  refine ⟨crate, "Translate", distances, _, _, rfl, rfl, ?_⟩
  decide +kernel

end Crate

end World

end SceneLink
