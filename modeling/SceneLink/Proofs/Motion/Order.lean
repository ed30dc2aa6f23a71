import SceneLink.Proofs.Motion.Animator
import SceneLink.Proofs.World.Order

namespace SceneLink

open Json

structure Tween.Ordered (t : Tween) : Prop where
  target : t.target.Sorted
  source : ∀ source ∈ t.source, source.Sorted

def Tween.Stepped.Ordered : Tween.Stepped → Prop
  | running t => t.Ordered
  | completed done => done.value.Sorted

namespace Tween

variable {t : Tween} {w : World} {root : Node} {source json : Json}

theorem Ordered.start (ht : t.Ordered) (hw : w.Ordered) (hroot : root.Ordered)
    (h : t.start w root = .ok json) : json.Sorted := by
  unfold Tween.start at h
  split at h
  · next held hheld =>
    cases h
    exact ht.source _ hheld
  · obtain ⟨node, hnode, hvalue⟩ := ok_of_bind h
    exact (hw.get hroot hnode).toValue hvalue

theorem Ordered.valueAt (ht : t.Ordered) (h : t.valueAt source = .ok json) : json.Sorted := by
  unfold Tween.valueAt at h
  split at h
  · obtain ⟨_, -, h⟩ := ok_of_bind h
    cases h
    exact ht.target
  · exact sorted_lerp h

theorem Ordered.step (ht : t.Ordered) (hw : w.Ordered) : (t.step w).1.Ordered ∧
    ∀ stepped, (t.step w).2 = .ok stepped → stepped.Ordered := by
  rw [Animator.step_eq]
  cases w.registry.get? t.objectId with
  | none => exact ⟨hw, fun _ h => nomatch h⟩
  | some handle =>
      dsimp only
      have hroot : (Node.object handle).Ordered := trivial
      cases hstart : t.start w (.object handle) with
      | error e => exact ⟨hw, fun _ h => nomatch h⟩
      | ok source =>
          dsimp only
          cases hvalue : t.valueAt source with
          | error e => exact ⟨hw, fun _ h => nomatch h⟩
          | ok value =>
              have hsource := ht.start hw hroot hstart
              have hjson : (Node.value value).Ordered := ht.valueAt hvalue
              refine ⟨hw.set hroot hjson, fun stepped hstepped => ?_⟩
              obtain ⟨_, -, rfl⟩ := ok_of_map hstepped
              unfold Tween.finish
              split
              · exact ⟨ht.target, fun _ hheld => Option.some.inj hheld ▸ hsource⟩
              · exact hjson

end Tween

namespace Animator

theorem ordered_advance {animator : Animator} {w : World} (dt : Double) (ht : ∀ t ∈ animator, t.Ordered)
    (hw : w.Ordered) : (animator.advance w dt).value.world.Ordered ∧
      (∀ t ∈ (animator.advance w dt).value.running, t.Ordered) ∧
      ∀ done ∈ (animator.advance w dt).value.completed, done.value.Sorted := by
  induction animator generalizing w with
  | nil => exact ⟨hw, (fun _ h => nomatch h), fun _ h => nomatch h⟩
  | cons t rest ih =>
      obtain ⟨hfirst, hrest⟩ := List.forall_mem_cons.1 ht
      let moved : Tween := { t with elapsed := t.elapsed + dt }
      have hmoved : moved.Ordered := ⟨hfirst.target, hfirst.source⟩
      obtain ⟨hworld, hstepped⟩ := hmoved.step hw
      unfold Animator.advance
      dsimp only
      split
      · obtain ⟨hafter, hrunning, hcompleted⟩ := ih hrest hw
        exact ⟨hafter, List.forall_mem_cons.2 ⟨hmoved, hrunning⟩, hcompleted⟩
      · rcases hresult : moved.step w with ⟨v, result⟩
        rw [hresult] at hworld hstepped
        obtain ⟨hafter, hrunning, hcompleted⟩ := ih hrest hworld
        cases result with
        | error e => exact ⟨hafter, hrunning, hcompleted⟩
        | ok stepped =>
            have hleft := hstepped stepped rfl
            cases stepped with
            | running u => exact ⟨hafter, List.forall_mem_cons.2 ⟨hleft, hrunning⟩, hcompleted⟩
            | completed done => exact ⟨hafter, hrunning, List.forall_mem_cons.2 ⟨hleft, hcompleted⟩⟩

end Animator

end SceneLink
