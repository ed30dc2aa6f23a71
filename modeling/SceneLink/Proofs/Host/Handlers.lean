import SceneLink.Proofs.Dict
import SceneLink.Proofs.Host.Frame

namespace SceneLink

namespace Host

def posted (h : Host) (op : Operation) : Host := h.setOutbox (h.outbox.posted op)

def posts (h : Host) (ops : List Operation) : Host := h.setOutbox (h.outbox.posts ops)

section Sending

variable {h : Host}

theorem send_value (hl : h.outbox.Lossless) (op : Operation) :
    (send op h).value = (.ok (), h.posted op) := by
  unfold send
  rw [Procedure.onPart_value, Procedure.mapError_value, Outbox.send_value hl]
  rfl

theorem send_state (h : Host) (op : Operation) : (send op h).value.2 = h.posted op := by
  unfold send
  rw [Procedure.onPart_value, Procedure.mapError_value, Outbox.send_state]
  rfl

theorem sendLogged_value (h : Host) (op : Operation) : (sendLogged op h).value = (.ok (), h.posted op) := by
  unfold sendLogged
  rw [Procedure.orWarn_value, send_state]

theorem flush_value (hl : h.outbox.Lossless) :
    (flush h).value = (.ok (), h.setOutbox h.outbox.flushed) := by
  unfold flush
  rw [Procedure.onPart_value, Procedure.mapError_value, Outbox.flush_value hl]
  rfl

theorem tickOutbox_value (hl : h.outbox.Lossless) :
    (tickOutbox h).value = (.ok (), h.setOutbox h.outbox.ticked) := by
  unfold tickOutbox
  rw [Procedure.onPart_value, Procedure.mapError_value, Outbox.tick_value hl]
  rfl

end Sending

section Creation

def reports (id : String) (reported : Dict String Json) : List Operation :=
  if reported = [] then [] else [Operation.named Event.updated.name id (.record reported)]

theorem report_value {h : Host} (hl : h.outbox.Lossless) (id : String) (reported : Dict String Json) :
    (report id reported h).value = (.ok (), h.posts (reports id reported)) := by
  unfold report reports
  split
  · rfl
  · exact send_value hl _

theorem register_value {h : Host} {id : String} (handle : Handle)
    (hfresh : h.world.registry.contains id = false) :
    (register id handle h).value = (.ok (), { h with world := { h.world with registry :=
      { entries := h.world.registry.entries.insert id { handle := handle }
        names := h.world.registry.names.insert handle id } } }) := by
  have hinsert : (h.world.registry.insert id handle).value =
      .ok { entries := h.world.registry.entries.insert id { handle := handle }
            names := h.world.registry.names.insert handle id } := by
    unfold Registry.insert
    rw [if_neg (by simp [hfresh])]
    rfl
  unfold register
  rw [Procedure.bind_value, Procedure.get_value]
  dsimp only
  rw [Procedure.bind_value, Procedure.log_value]
  dsimp only
  rw [hinsert]
  rfl

theorem register_refused {h : Host} {id : String} (handle : Handle)
    (hheld : h.world.registry.contains id = true) :
    (register id handle h).value = (.error (.access (.duplicateObject id)), h) := by
  have hinsert : (h.world.registry.insert id handle).value = .error (.duplicateObject id) := by
    unfold Registry.insert
    rw [if_pos hheld]
    rfl
  unfold register
  rw [Procedure.bind_value, Procedure.get_value]
  dsimp only
  rw [Procedure.bind_value, Procedure.log_value]
  dsimp only
  rw [hinsert]
  rfl

def withObject (h : Host) (id : String) (object : Handle) (scene : Scene) : Host :=
  { h with world := { h.world with
    scene := scene
    registry :=
      { entries := h.world.registry.entries.insert id { handle := object }
        names := h.world.registry.names.insert object id } } }

-- Nothing has happened yet where a template is refused.
theorem place_eq (template : Template) (h : Host) : (place template h).value =
    if template.id = "" then (.error (.codec (.missingField Event.create.name "id")), h)
    else if h.world.registry.contains template.id then (.error (.access (.duplicateObject template.id)), h)
    else match (h.instantiate template).value with
      | .error e => (.error e, h)
      | .ok (object, built) => match h.addComponent template object built with
        | .error e => (.error e, h)
        | .ok scene => (.ok object, h.withObject template.id object scene) := by
  unfold place
  rw [Procedure.bind_value, Procedure.get_value]
  dsimp only
  split
  · rfl
  · split
    · rfl
    · next hcontains =>
      have hfresh : h.world.registry.contains template.id = false := by simpa using hcontains
      rw [Procedure.bind_value, Procedure.log_value]
      dsimp only
      rw [Procedure.bind_value, Procedure.ofExcept_value]
      cases (h.instantiate template).value with
      | error e => rfl
      | ok pair =>
          obtain ⟨object, built⟩ := pair
          dsimp only
          rw [Procedure.bind_value, Procedure.ofExcept_value]
          cases h.addComponent template object built with
          | error e => rfl
          | ok scene =>
              have hset : (setWorld { h.world with scene := scene } h).value =
                  (.ok (), h.setScene scene) := rfl
              dsimp only
              rw [Procedure.bind_value, hset]
              dsimp only
              rw [Procedure.bind_value, register_value object (by exact hfresh)]
              rfl

theorem place_value (template : Template) (h : Host) :
    (∃ e, (place template h).value = (.error e, h)) ∨
      ∃ handle scene, (place template h).value = (.ok handle,
        { h with world := { h.world with
          scene := scene
          registry :=
            { entries := h.world.registry.entries.insert template.id { handle := handle }
              names := h.world.registry.names.insert handle template.id } } }) ∧
        template.id ≠ "" ∧ h.world.registry.contains template.id = false := by
  rw [place_eq]
  split
  · exact .inl ⟨_, rfl⟩
  · next hid =>
    split
    · exact .inl ⟨_, rfl⟩
    · next hcontains =>
      have hfresh : h.world.registry.contains template.id = false := by simpa using hcontains
      split
      · exact .inl ⟨_, rfl⟩
      · split
        · exact .inl ⟨_, rfl⟩
        · exact .inr ⟨_, _, rfl, hid, hfresh⟩

theorem sendCreated_value {h : Host} (hl : h.outbox.Lossless) (id : String) :
    ∃ data, (sendCreated id h).value = (.ok (), h.posted { Operation.created id with data }) := by
  unfold sendCreated
  rw [Procedure.bind_value, Procedure.get_value]
  dsimp only
  rw [Procedure.bind_value, Procedure.log_value]
  exact ⟨_, send_value hl _⟩

structure Created (h : Host) (template : Template) (k : Host) (ops : List Operation) : Prop where
  named : template.id ≠ ""
  fresh : h.world.registry.contains template.id = false
  entries : ∃ handle, ∀ id, k.world.registry.entries.get? id =
    if id = template.id then some { handle, interests := template.interests }
    else h.world.registry.entries.get? id
  animator : k.animator = h.animator
  outbox : k.outbox = h.outbox.posts ops
  sent : ∃ data reported, ops =
    { Operation.created template.id with data } :: reports template.id reported

-- What remains to be done for an object once it hangs in its place.
def configure (template : Template) (object : Handle) : Action Unit := do
  let reported ← applyUpdate template.id object template.update
  modify fun h => { h with
    world.registry := h.world.registry.mapInterests template.id fun _ => template.interests }
  (deliver object template.postEvents).orWarn fun e =>
    s!"Post-events for {template.id} failed: {e.message}"
  sendCreated template.id
  report template.id reported

theorem configure_value {h : Host} (hl : h.outbox.Lossless) (template : Template) (object : Handle) :
    ∃ k ops, (configure template object h).value = (.ok (), k) ∧
      k.world.registry = h.world.registry.mapInterests template.id (fun _ => template.interests) ∧
      k.animator = h.animator ∧ k.outbox = h.outbox.posts ops ∧
      ∃ data reported, ops =
        { Operation.created template.id with data } :: reports template.id reported := by
  obtain ⟨updated, reported, hupdate, scene, rfl⟩ :=
    applyUpdate_still template.id object template.update h
  let named : Host := { h.setScene scene with
    world.registry := h.world.registry.mapInterests template.id fun _ => template.interests }
  obtain ⟨last, hlast⟩ := deliver_still object template.postEvents named
  have hout : (named.setScene last).outbox.Lossless := hl
  obtain ⟨data, hsent⟩ := sendCreated_value hout template.id
  have hnext : ((named.setScene last).posted
      { Operation.created template.id with data }).outbox.Lossless := Outbox.lossless_posted hl _
  let ops := { Operation.created template.id with data } :: reports template.id reported
  refine ⟨(named.setScene last).posts ops, ops, ?_, rfl, rfl, rfl, data, reported, rfl⟩
  unfold configure
  rw [Procedure.bind_value, hupdate]
  dsimp only
  rw [Procedure.bind_value, Procedure.modify_value]
  dsimp only
  rw [Procedure.bind_value, Procedure.orWarn_value]
  dsimp only
  change ((sendCreated template.id >>= fun _ => report template.id reported)
    (deliver object template.postEvents named).value.2).value = _
  rw [hlast, Procedure.bind_value, hsent]
  exact report_value hnext template.id reported

theorem get?_mapInterests (r : Registry) (id other : String)
    (change : Dict String InterestSpec → Dict String InterestSpec) :
    (r.mapInterests id change).entries.get? other =
      if other = id then
        (r.entries.get? id).map fun entry => { entry with interests := change entry.interests }
      else r.entries.get? other := by
  unfold Registry.mapInterests
  cases hentry : r.entries.get? id with
  | none =>
      dsimp only
      split
      · next heq => rw [heq, hentry]; rfl
      · rfl
  | some entry =>
      dsimp only
      rw [Dict.get?_insert]
      rfl

theorem get?_remove (r : Registry) (id other : String) :
    (r.remove id).entries.get? other = if other = id then none else r.entries.get? other := by
  unfold Registry.remove
  cases hentry : r.entries.get? id with
  | some entry => exact Dict.get?_erase _ _ _
  | none =>
      dsimp only
      split
      · next heq => rw [heq, hentry]
      · rfl

theorem create_value {h : Host} (hl : h.outbox.Lossless) (template : Template) :
    (∃ e, (create template h).value = (.error e, h)) ∨
      ∃ k ops, (create template h).value = (.ok (), k) ∧ Created h template k ops := by
  rcases place_value template h with ⟨e, he⟩ | ⟨handle, scene, hplace, hnamed, hfresh⟩
  · refine .inl ⟨e, ?_⟩
    unfold create
    rw [Procedure.bind_value, he]
  · right
    generalize hplaced : ({ h with world := { h.world with
      scene := scene
      registry :=
        { entries := h.world.registry.entries.insert template.id { handle := handle }
          names := h.world.registry.names.insert handle template.id } } } : Host) = placed at hplace
    -- Deliveries and the attachment leave a host that differs from `placed` in its scene.
    have hrest : ∀ l, Still placed l → ∃ k ops, (configure template handle l).value = (.ok (), k) ∧
        Created h template k ops := by
      rintro l ⟨moved, rfl⟩
      have hlp : (placed.setScene moved).outbox.Lossless := by
        rw [← hplaced]
        exact hl
      obtain ⟨k, ops, hvalue, hregistry, hanimator, houtbox, hsent⟩ :=
        configure_value hlp template handle
      have hsame : (placed.setScene moved).outbox = h.outbox := by
        rw [← hplaced]
        rfl
      refine ⟨k, ops, hvalue, hnamed, hfresh, ⟨handle, fun id => ?_⟩, ?_, hsame ▸ houtbox, hsent⟩
      · rw [hregistry, get?_mapInterests]
        subst hplaced
        simp only [setScene, Dict.get?_insert]
        split <;> rfl
      · rw [hanimator, ← hplaced]
        rfl
    unfold create
    rw [Procedure.bind_value, hplace]
    dsimp only
    rw [Procedure.bind_value, Procedure.orWarn_value]
    dsimp only
    have hdelivered := deliver_still handle template.preEvents placed
    cases nonEmpty? template.parent with
    | none => exact hrest _ hdelivered
    | some parent =>
        dsimp only
        rw [Procedure.bind_value, Procedure.orWarn_value]
        exact hrest _ (hdelivered.trans (attach_still handle parent _ _))

end Creation

end Host

end SceneLink
