import SceneLink.Motion.Animator
import SceneLink.Proofs.Host.Frame

namespace SceneLink

namespace Tween

-- A tween at a later time.
def Continues (t u : Tween) : Prop := ∃ source elapsed, u = { t with source, elapsed }

theorem Continues.refl (t : Tween) : t.Continues t := ⟨t.source, t.elapsed, rfl⟩

theorem Continues.trans {t u v : Tween} (h : t.Continues u) (h' : u.Continues v) : t.Continues v := by
  obtain ⟨source, elapsed, rfl⟩ := h
  obtain ⟨source', elapsed', rfl⟩ := h'
  exact ⟨source', elapsed', rfl⟩

theorem Continues.objectId {t u : Tween} (h : t.Continues u) : u.objectId = t.objectId := by
  obtain ⟨source, elapsed, rfl⟩ := h
  rfl

-- The end of a tween is told in the name of the tween.
structure Ends (t : Tween) (done : Completed) : Prop where
  objectId : done.objectId = t.objectId
  callbackId : done.callbackId = t.callbackId

end Tween

namespace Animator

-- The worlds that writes of these tweens lead to, each to the object that is registered for the
-- tween at that moment.
inductive Written (animator : Animator) (w : World) : World → Prop
  | nothing : Written animator w w
  | write {u : World} {t : Tween} {handle : Handle} (value : Json) (hu : Written animator w u)
      (ht : t ∈ animator) (hhandle : u.registry.get? t.objectId = some handle) :
      Written animator w (u.set (.object handle) t.path (.value value)).world

section Written

variable {animator : Animator} {w u v : World}

theorem Written.trans (h : Written animator w u) (h' : Written animator u v) : Written animator w v := by
  induction h' with
  | nothing => exact h
  | write value _ ht hhandle ih => exact .write value ih ht hhandle

-- The same writes are writes of the tweens that these continue.
theorem Written.mono {more : Animator} (h : Written animator w u)
    (hsub : ∀ t ∈ animator, ∃ u ∈ more, u.Continues t) : Written more w u := by
  induction h with
  | nothing => exact .nothing
  | write value _ ht hhandle ih =>
      obtain ⟨u, hu, source, elapsed, rfl⟩ := hsub _ ht
      exact .write (t := u) value ih hu hhandle

theorem Written.scene (h : Written animator w u) : ∃ scene, u = { w with scene := scene } := by
  induction h with
  | nothing => exact ⟨w.scene, rfl⟩
  | @write u t handle value _ _ _ ih =>
      obtain ⟨scene, rfl⟩ := ih
      obtain ⟨last, hlast⟩ := World.set_world { w with scene := scene } (.object handle) t.path (.value value)
      exact ⟨last, hlast⟩

end Written

section Frames

theorem step_eq (t : Tween) (w : World) : t.step w = match w.registry.get? t.objectId with
    | none => (w, .error (.unknownObject t.objectId))
    | some handle => match t.start w (.object handle) with
      | .error e => (w, .error e)
      | .ok source => match t.valueAt source with
        | .error e => (w, .error e)
        | .ok value =>
          ((w.set (.object handle) t.path (.value value)).world,
            (w.set (.object handle) t.path (.value value)).result.map fun _ => t.finish source value) := by
  unfold Tween.step
  cases w.registry.get? t.objectId with
  | none => rfl
  | some handle =>
      cases hstart : t.start w (.object handle) with
      | error e => simp [hstart, bind, pure, Except.bind, Except.pure]
      | ok source =>
          cases hvalue : t.valueAt source with
          | error e => simp [hstart, hvalue, bind, pure, Except.bind, Except.pure]
          | ok value => simp [hstart, hvalue, bind, pure, Except.bind, Except.pure]

theorem finish_continues {t u : Tween} {source value : Json}
    (h : t.finish source value = .running u) : t.Continues u := by
  unfold Tween.finish at h
  split at h
  · cases h
    exact ⟨some source, t.elapsed, rfl⟩
  · cases h

theorem finish_ends {t : Tween} {done : Completed} {source value : Json}
    (h : t.finish source value = .completed done) : t.Ends done := by
  unfold Tween.finish at h
  split at h
  · cases h
  · cases h
    exact ⟨rfl, rfl⟩

-- A step writes at most once, and what it leaves of the tween is the tween itself or its end.
theorem step_spec (t : Tween) (w : World) : Written [t] w (t.step w).1 ∧
    ∀ stepped, (t.step w).2 = .ok stepped → ∃ source value, stepped = t.finish source value := by
  rw [step_eq]
  cases hhandle : w.registry.get? t.objectId with
  | none => exact ⟨.nothing, by simp⟩
  | some handle =>
      dsimp only
      cases t.start w (.object handle) with
      | error e => exact ⟨.nothing, by simp⟩
      | ok source =>
          dsimp only
          cases t.valueAt source with
          | error e => exact ⟨.nothing, by simp⟩
          | ok value =>
              refine ⟨.write value .nothing List.mem_cons_self hhandle, fun stepped hstepped => ?_⟩
              dsimp only at hstepped
              cases hresult : (w.set (.object handle) t.path (.value value)).result with
              | error e => simp [hresult, Except.map] at hstepped
              | ok _ =>
                  rw [hresult] at hstepped
                  exact ⟨source, value, (Except.ok.inj hstepped).symm⟩

structure Frame (animator : Animator) (w : World) (advanced : Advanced) : Prop where
  world : Written animator w advanced.world
  running : ∀ u ∈ advanced.running, ∃ t ∈ animator, t.Continues u
  completed : ∀ done ∈ advanced.completed, ∃ t ∈ animator, t.Ends done

theorem advance_spec (animator : Animator) (w : World) (dt : Double) :
    Frame animator w (animator.advance w dt).value := by
  induction animator generalizing w with
  | nil => exact ⟨.nothing, (fun _ h => nomatch h), fun _ h => nomatch h⟩
  | cons t rest ih =>
      let moved : Tween := { t with elapsed := t.elapsed + dt }
      have hmoved : t.Continues moved := ⟨t.source, t.elapsed + dt, rfl⟩
      have hrest {v : World} (hv : Written (t :: rest) w v) {advanced : Advanced}
          (h : Frame rest v advanced) : Frame (t :: rest) w advanced :=
        ⟨hv.trans (h.world.mono fun u hu => ⟨u, List.mem_cons_of_mem t hu, .refl u⟩),
          fun u hu => (h.running u hu).imp fun _ h => ⟨List.mem_cons_of_mem t h.1, h.2⟩,
          fun done hdone => (h.completed done hdone).imp fun _ h => ⟨List.mem_cons_of_mem t h.1, h.2⟩⟩
      have hkept {v : World} {u : Tween} (hv : Written (t :: rest) w v) (hu : t.Continues u)
          {advanced : Advanced} (h : Frame rest v advanced) :
          Frame (t :: rest) w { advanced with running := u :: advanced.running } := by
        refine ⟨(hrest hv h).world, fun other hother => ?_, (hrest hv h).completed⟩
        rcases List.mem_cons.1 hother with rfl | hother
        · exact ⟨t, List.mem_cons_self, hu⟩
        · exact (hrest hv h).running other hother
      unfold Animator.advance
      dsimp only
      split
      · exact hkept .nothing hmoved (ih w)
      · obtain ⟨hwritten, hstepped⟩ := step_spec moved w
        have hv : Written (t :: rest) w (moved.step w).1 :=
          hwritten.mono fun u hu => ⟨t, List.mem_cons_self, List.mem_singleton.1 hu ▸ hmoved⟩
        rcases hresult : moved.step w with ⟨v, result⟩
        rw [hresult] at hv hstepped
        cases result with
        | error e => exact hrest hv (ih _)
        | ok stepped =>
            obtain ⟨source, value, hfinish⟩ := hstepped stepped rfl
            cases stepped with
            | running u => exact hkept hv (hmoved.trans (finish_continues hfinish.symm)) (ih _)
            | completed done =>
                have hends := finish_ends hfinish.symm
                refine ⟨(hrest hv (ih _)).world, (hrest hv (ih _)).running, fun other hother => ?_⟩
                rcases List.mem_cons.1 hother with rfl | hother
                · exact ⟨t, List.mem_cons_self, hends.objectId, hends.callbackId⟩
                · exact (hrest hv (ih _)).completed other hother

end Frames

end Animator

end SceneLink
