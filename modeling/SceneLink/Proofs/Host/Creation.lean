import SceneLink.Proofs.Host.Handlers

namespace SceneLink.Host

variable {h k : Host}

theorem scene_value (result : Except HostError Scene) (h : Host) :
    ((Procedure.ofExcept result >>= fun scene => setWorld { h.world with scene := scene } :
      Action Unit) h).value = match result with
        | .ok scene => (.ok (), h.setScene scene)
        | .error e => (.error e, h) := by
  cases result <;> rfl

theorem deliver_value (object : Handle) (events : List TemplateEvent) (h : Host) :
    (deliver object events h).value = match h.world.scene.deliver object (events.map (·.event)) with
      | .ok scene => (.ok (), h.setScene scene)
      | .error e => (.error (.access e), h) := by
  unfold deliver
  rw [Procedure.bind_value, Procedure.get_value]
  dsimp only
  rw [scene_value]
  cases h.world.scene.deliver object (events.map (·.event)) <;> rfl

-- An object is hung below what its parent path leads to, unless this is the object itself.
theorem attach_value (child : Handle) (parent : String) (stays : Bool) (h : Host) :
    (attach child parent stays h).value = match parentOf h.world child parent with
      | .error e => (.error (.access e), h)
      | .ok above =>
        if above = child then (.error (.access (.attachToSelf parent)), h)
        else match h.world.scene.addChild above child stays with
          | .ok scene => (.ok (), h.setScene scene)
          | .error e => (.error (.access e), h) := by
  unfold attach
  rw [Procedure.bind_value, Procedure.get_value]
  dsimp only
  rw [scene_value]
  cases parentOf h.world child parent with
  | error e => rfl
  | ok above =>
      have hattached : (do
          let above ← Except.ok above
          if above = child then throw (.attachToSelf parent)
          h.world.scene.addChild above child stays : Except AccessError Scene) =
          if above = child then .error (.attachToSelf parent)
          else h.world.scene.addChild above child stays := by
        change (if above = child then _ else _) = _
        split <;> rfl
      rw [hattached]
      by_cases hself : above = child
      · rw [if_pos hself]
        exact (if_pos hself).symm
      · rw [if_neg hself]
        dsimp only
        rw [if_neg hself]
        cases h.world.scene.addChild above child stays <;> rfl

theorem attach_cases (child : Handle) (parent : String) (stays : Bool) (h : Host) :
    (∃ e, (attach child parent stays h).value = (.error e, h)) ∨
      ∃ above scene, (attach child parent stays h).value = (.ok (), h.setScene scene) ∧
        parentOf h.world child parent = .ok above ∧ above ≠ child ∧
        h.world.scene.addChild above child stays = .ok scene := by
  rw [attach_value]
  cases habove : parentOf h.world child parent with
  | error e => exact .inl ⟨_, rfl⟩
  | ok above =>
      by_cases hself : above = child
      · exact .inl ⟨_, if_pos hself⟩
      · dsimp only
        rw [if_neg hself]
        cases hscene : h.world.scene.addChild above child stays with
        | error e => exact .inl ⟨_, rfl⟩
        | ok scene => exact .inr ⟨above, scene, rfl, rfl, hself, hscene⟩

theorem assign_value (object : Handle) (text : String) (raw : Json) (h : Host) :
    (assign object text raw h).value = match Path.parse text, Expression.ofJson raw with
      | .error e, _ => (.error (.access (.path e)), h)
      | .ok _, .error e => (.error (.access (.expression e)), h)
      | .ok path, .ok expr =>
        let written := h.world.assign (.object object) path expr
        ((written.result.mapError HostError.access).map fun node =>
            if expr.report then some (h.world.registry.toJson node) else none,
          { h with world := written.world }) := by
  unfold assign
  rw [Procedure.bind_value, Procedure.ofExcept_value]
  cases Path.parse text with
  | error e => rfl
  | ok path =>
      dsimp only [Except.mapError]
      rw [Procedure.bind_value, Procedure.ofExcept_value]
      cases Expression.ofJson raw with
      | error e => rfl
      | ok expr =>
          dsimp only [Except.mapError]
          rw [Procedure.bind_value, Procedure.get_value]
          dsimp only
          have hset : (setWorld (h.world.assign (.object object) path expr).world h).value =
              (.ok (), { h with world := (h.world.assign (.object object) path expr).world }) := rfl
          rw [Procedure.bind_value, hset]
          dsimp only
          rw [Procedure.bind_value, Procedure.ofExcept_value]
          cases (h.world.assign (.object object) path expr).result <;> rfl

-- A new object stands where its plan was built, with its component.
theorem place_scene {template : Template} {object : Handle}
    (hplace : (place template h).value = (.ok object, k)) : ∃ built,
      (h.instantiate template).value = .ok (object, built) ∧
      h.addComponent template object built = .ok k.world.scene := by
  rw [place_eq] at hplace
  split at hplace
  · cases hplace
  · split at hplace
    · cases hplace
    · split at hplace
      · cases hplace
      · next built hbuilt =>
        split at hplace
        · cases hplace
        · next scene hscene =>
          cases hplace
          exact ⟨built, hbuilt, hscene⟩

-- The new object of a template, hung below what the parent path leads to, or nowhere if it names none.
def hungIn (template : Template) (object : Handle) (h : Host) : Host :=
  match nonEmpty? template.parent with
  | none => h
  | some parent => (attach object parent (template.worldPositionStays.getD true) h).value.2

-- A creation in three parts: the object is placed, hung and configured.
theorem create_placed {template : Template} {object : Handle}
    (hplace : (place template h).value = (.ok object, k)) :
    (create template h).value = (configure template object
      (hungIn template object (deliver object template.preEvents k).value.2)).value := by
  unfold create hungIn
  rw [Procedure.bind_value, hplace]
  dsimp only
  rw [Procedure.bind_value, Procedure.orWarn_value]
  dsimp only
  cases nonEmpty? template.parent with
  | none => rfl
  | some parent =>
      dsimp only
      rw [Procedure.bind_value, Procedure.orWarn_value]
      rfl

theorem create_refused {template : Template} {e : HostError}
    (hplace : (place template h).value = (.error e, h)) : (create template h).value = (.error e, h) := by
  unfold create
  rw [Procedure.bind_value, hplace]

end SceneLink.Host
