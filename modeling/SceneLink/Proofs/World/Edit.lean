import SceneLink.World.Write

namespace SceneLink

namespace Edit

variable {α β : Type}

theorem bind_run (p : Edit α) (f : α → Edit β) (s : Scene) :
    (p >>= f).run s = match p.run s with
      | (.ok a, t) => (f a).run t
      | (.error e, t) => (.error e, t) := by
  change (match p.run s with
    | (result, t) => (ExceptT.bindCont f result : StateM Scene (Except AccessError β)) t) = _
  rcases p.run s with ⟨result, t⟩
  cases result <;> rfl

theorem error_of_map {p : Edit α} {f : α → β} {s t : Scene} {e : AccessError}
    (h : (do return f (← p) : Edit β).run s = (.error e, t)) : p.run s = (.error e, t) := by
  rw [bind_run] at h
  generalize p.run s = out at h
  obtain ⟨result, u⟩ := out
  cases result with
  | ok a => cases h
  | error cause =>
      cases h
      rfl

theorem tryCatch_run (p : Edit α) (handle : AccessError → Edit α) (s : Scene) :
    (tryCatch p handle).run s = match p.run s with
      | (.ok a, t) => (.ok a, t)
      | (.error e, t) => (handle e).run t := by
  change (ExceptT.tryCatch p handle).run s = _
  rcases hrun : p.run s with ⟨result, t⟩
  unfold ExceptT.run at hrun
  simp only [ExceptT.tryCatch, ExceptT.run, ExceptT.mk, bind, StateT.bind, hrun]
  cases result <;> rfl

def Looks (p : Edit α) : Prop := ∀ s, (p.run s).2 = s

-- An edit that leaves the scene as it was if it fails.
def Atomic (p : Edit α) : Prop := ∀ s e t, p.run s = (.error e, t) → t = s

theorem looks_pure (a : α) : Looks (pure a : Edit α) := fun _ => rfl

theorem looks_throw (e : AccessError) : Looks (throw e : Edit α) := fun _ => rfl

theorem looks_attempt (result : Except AccessError α) : Looks (attempt result) := fun _ => rfl

theorem looks_toValue (node : Node) : Looks (toValue node) := fun _ => rfl

theorem looks_reading (w : World) (f : World → Except AccessError α) : Looks (w.reading f) :=
  fun _ => rfl

theorem Looks.run_eq {p : Edit α} (h : Looks p) (s : Scene) : ∃ result, p.run s = (result, s) :=
  ⟨(p.run s).1, Prod.ext rfl (h s)⟩

theorem Looks.atomic {p : Edit α} (h : Looks p) : Atomic p := by
  intro s e t hrun
  rw [← h s, hrun]

theorem Looks.bind_atomic {p : Edit α} {f : α → Edit β} (hp : Looks p) (hf : ∀ a, Atomic (f a)) :
    Atomic (p >>= f) := by
  intro s e t hrun
  obtain ⟨result, hlook⟩ := hp.run_eq s
  rw [bind_run, hlook] at hrun
  cases result with
  | ok a => exact hf a s e t hrun
  | error cause => exact (Prod.mk.inj hrun).2.symm

theorem Looks.bind {p : Edit α} {f : α → Edit β} (hp : Looks p) (hf : ∀ a, Looks (f a)) :
    Looks (p >>= f) := by
  intro s
  obtain ⟨result, hlook⟩ := hp.run_eq s
  rw [bind_run, hlook]
  cases result with
  | ok a => exact hf a s
  | error cause => rfl

theorem change_run (f : Scene → Except AccessError Scene) (s : Scene) :
    (change f).run s = match f s with
      | .ok t => (.ok (), t)
      | .error e => (.error e, s) := by
  unfold change
  rfl

theorem change_atomic (f : Scene → Except AccessError Scene) (a : α) :
    Atomic (do change f; return a : Edit α) := by
  intro s e t hrun
  rw [bind_run, change_run] at hrun
  cases hf : f s with
  | ok u =>
      rw [hf] at hrun
      cases hrun
  | error cause =>
      rw [hf] at hrun
      exact (Prod.mk.inj hrun).2.symm

section Yields

-- A property of the value that an edit gives where it does not fail.
def Yields (post : α → Prop) (p : Edit α) : Prop := ∀ s a t, p.run s = (.ok a, t) → post a

theorem yields_throw {post : α → Prop} (e : AccessError) : Yields post (throw e) := by
  intro s a t hrun
  cases hrun

theorem yields_pure {post : α → Prop} {a : α} (ha : post a) : Yields post (pure a) := by
  intro s b t hrun
  cases hrun
  exact ha

theorem Yields.bind {post : β → Prop} {f : α → Edit β} (hf : ∀ a, Yields post (f a)) (p : Edit α) :
    Yields post (p >>= f) := by
  intro s b t hrun
  rw [bind_run] at hrun
  generalize p.run s = out at hrun
  obtain ⟨result, u⟩ := out
  cases result with
  | ok a => exact hf a u b t hrun
  | error e => cases hrun

end Yields

end Edit

end SceneLink
