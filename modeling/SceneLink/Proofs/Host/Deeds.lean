import SceneLink.Proofs.Host.Handlers
import SceneLink.Proofs.Motion.Animator
import SceneLink.Proofs.Operation.Batch

namespace SceneLink

inductive Deed where
  | apply (op : Operation)
  | flush
  | tick (dt : Double)
  -- The rest is done by the program around the host.
  | emit (id event : String) (extra : Dict String Json)
  | register (id : String) (handle : Handle)
  | arrange (scene : Scene) (resources : Dict String Node) (catalog : Catalog)
  | announce
  -- The transport takes what was handed over.
  | collect

-- The program around a host raises no event of the protocol itself.
def Deed.IsOwn : Deed → Prop
  | apply _ | collect => False
  | emit _ event _ => (Event.ofName event).isCustom
  | _ => True

namespace Host

def perform (h : Host) : Deed → Host
  | .apply op => (applyLogged op h).value.2
  | .flush => (flush h).value.2
  | .tick dt => (tick dt h).value.2
  | .emit id event extra => (emit id event extra h).value.2
  | .register id handle => (register id handle h).value.2
  | .arrange scene resources catalog =>
    { h with world := { h.world with scene, resources }, catalog }
  | .announce => (announce h).value.2
  | .collect => h.collect.2

def after (h : Host) (deeds : List Deed) : Host := deeds.foldl perform h

theorem after_append (h : Host) (first second : List Deed) :
    h.after (first ++ second) = (h.after first).after second := List.foldl_append

def refuses (h : Host) (op : Operation) : Bool :=
  match (apply op h).value.1 with
  | .ok () => false
  | .error _ => true

-- The interests of an object after an operation that neither creates nor destroys.
def interestsAfter (op : Operation) (id : String) (interests : Dict String InterestSpec) :
    Dict String InterestSpec :=
  if op.event = .updateInterests ∧ nonEmpty? op.id = some id then
    match op.payload InterestChanges.ofJson? with
    | .ok changes => changes.foldl changeInterest interests
    | .error _ => interests
  else interests

-- The answer to a query, from the state in which the host applies it.
def answers (h : Host) (op : Operation) : List Operation :=
  if op.event = .query then
    match nonEmpty? op.id, op.payload QueryRequest.ofJson? with
    | some id, .ok { query := paths, callbackId := some callbackId } =>
      match h.world.registry.get? id with
      | some handle =>
        [Operation.callback callbackId (.record (h.world.query (.object handle) paths).value)]
      | none => []
    | _, _ => []
  else []

-- The answers that running tweens may still send.
def promised (h : Host) : List String := h.animator.filterMap (·.callbackId)

def animationNames (op : Operation) : List String :=
  match op.event, op.payload (Json.listOf? Animation.ofJson?) with
  | .animate, .ok animations => animations.filterMap (·.callbackId)
  | _, _ => []

inductive Change (h : Host) (op : Operation) (k : Host) (ops : List Operation) : Prop
  | refused (hevent : op.event = .create) (hrefused : h.refuses op = true) (hk : k = h)
      (hops : ops = [])
  | created (hevent : op.event = .create) (hrefused : h.refuses op = false) (template : Template)
      (hpayload : op.payload Template.ofJson? = .ok template) (hk : Created h template k ops)
  | unknown (hevent : op.event = .destroy) (hk : k = h) (hops : ops = [])
      (hid : ∀ id, nonEmpty? op.id = some id → h.world.registry.entries.get? id = none)
  | destroyed (hevent : op.event = .destroy) (id : String) (hid : nonEmpty? op.id = some id)
      (hheld : (h.world.registry.entries.get? id).isSome)
      (hentries : ∀ other, k.world.registry.entries.get? other =
        if other = id then none else h.world.registry.entries.get? other)
      (hops : ∃ data, ops = [{ Operation.destroyed id with data }])
  | kept (hcreate : op.event ≠ .create) (hdestroy : op.event ≠ .destroy)
      (hentries : ∀ id, k.world.registry.entries.get? id =
        (h.world.registry.entries.get? id).map fun entry =>
          { entry with interests := interestsAfter op id entry.interests })
      (hops : ∀ o ∈ ops, o.event ≠ .created ∧ o.event ≠ .destroyed)

structure Applied (h : Host) (op : Operation) (k : Host) (ops : List Operation) : Prop where
  change : Change h op k ops
  outbox : k.outbox = h.outbox.posts ops
  settled : ∀ o ∈ ops, o.event.Settled
  answers : ops.filter (·.event = .callback) = h.answers op
  promised : ∀ name ∈ k.promised, name ∈ h.promised ∨ name ∈ animationNames op

theorem applyLogged_value (op : Operation) (h : Host) :
    (applyLogged op h).value = (.ok (), (apply op h).value.2) := by
  unfold applyLogged
  rw [Procedure.bind_value, Procedure.outcome_value]
  dsimp only
  cases (apply op h).value.1 with
  | ok u => rfl
  | error e =>
      dsimp only
      rw [Procedure.bind_value, Procedure.get_value]
      dsimp only
      split <;> rfl

theorem perform_apply (h : Host) (op : Operation) : h.perform (.apply op) = (apply op h).value.2 := by
  change (applyLogged op h).value.2 = _
  rw [applyLogged_value]

theorem payload_value {α : Type} (op : Operation) (read : Json → Option α) (h : Host) :
    ((payload op read : Action α) h).value = ((op.payload read).mapError .codec, h) := rfl

section Apply

variable {h : Host} {op : Operation}

private theorem answers_of_ne (h : Host) (hevent : op.event ≠ .query) : h.answers op = [] := if_neg hevent

theorem reports_event {id : String} {reported : Dict String Json} {o : Operation}
    (ho : o ∈ reports id reported) : o.event = .custom "Updated" := by
  unfold reports at ho
  split at ho
  · cases ho
  · rw [List.mem_singleton.1 ho]
    rfl

private theorem filter_reports (id : String) (reported : Dict String Json) :
    (reports id reported).filter (·.event = .callback) = [] := by
  rw [List.filter_eq_nil_iff]
  intro o ho
  rw [reports_event ho]
  decide

private theorem applied_self (hchange : Change h op h []) (hanswers : h.answers op = []) :
    Applied h op h [] :=
  ⟨hchange, rfl, (fun _ h => nomatch h), hanswers.symm, fun _ hname => .inl hname⟩

private theorem kept_self (hcreate : op.event ≠ .create) (hdestroy : op.event ≠ .destroy)
    (hsame : ∀ id interests, (h.world.registry.entries.get? id).isSome →
      interestsAfter op id interests = interests) : Change h op h [] := by
  refine .kept hcreate hdestroy (fun id => ?_) (fun o ho => nomatch ho)
  cases hentry : h.world.registry.entries.get? id with
  | none => rfl
  | some entry => rw [Option.map_some, hsame id _ (by rw [hentry]; rfl)]

theorem interestsAfter_of_ne (hevent : op.event ≠ .updateInterests) (id : String)
    (interests : Dict String InterestSpec) : interestsAfter op id interests = interests :=
  if_neg fun h => hevent h.1

theorem apply_create (hl : h.outbox.Lossless) (hevent : op.event = .create) :
    ∃ ops, Applied h op (apply op h).value.2 ops := by
  have hanswers : h.answers op = [] := answers_of_ne h (by rw [hevent]; decide)
  have hvalue : (apply op h).value = match (op.payload Template.ofJson?).mapError HostError.codec with
      | .ok template => (create template h).value
      | .error e => (.error e, h) := by
    unfold apply
    rw [hevent]
    dsimp only
    rw [Procedure.bind_value, payload_value]
    cases (op.payload Template.ofJson?).mapError HostError.codec <;> rfl
  cases hpayload : op.payload Template.ofJson? with
  | error e =>
      rw [hpayload] at hvalue
      refine ⟨[], ?_⟩
      rw [hvalue]
      exact applied_self (.refused hevent (by unfold refuses; rw [hvalue]; rfl) rfl rfl) hanswers
  | ok template =>
      rw [hpayload] at hvalue
      change (apply op h).value = (create template h).value at hvalue
      rcases create_value hl template with ⟨e, he⟩ | ⟨k, ops, hk, hcreated⟩
      · refine ⟨[], ?_⟩
        rw [hvalue, he]
        exact applied_self (.refused hevent (by unfold refuses; rw [hvalue, he]) rfl rfl) hanswers
      · refine ⟨ops, ?_⟩
        rw [hvalue, hk]
        refine ⟨.created hevent (by unfold refuses; rw [hvalue, hk]) template hpayload hcreated,
          hcreated.outbox, ?_, ?_, fun name hname => .inl ?_⟩
        · obtain ⟨data, reported, rfl⟩ := hcreated.sent
          intro o ho
          rcases List.mem_cons.1 ho with rfl | ho
          · rfl
          · rw [reports_event ho]
            rfl
        · obtain ⟨data, reported, rfl⟩ := hcreated.sent
          rw [hanswers, List.filter_cons_of_neg (by simp [Operation.created]), filter_reports]
        · unfold promised at hname ⊢
          rwa [hcreated.animator] at hname

theorem requireObject_eq (h : Host) (id : String) :
    h.requireObject id = match h.world.registry.entries.get? id with
      | some entry => .ok entry.handle
      | none => .error (.unknownObject id) := by
  unfold requireObject Registry.get?
  cases h.world.registry.entries.get? id <;> rfl

-- What is done to an object is done to one that is there.
theorem required_value {α : Type} (id : String) (act : Host → Handle → Action α) (h : Host) :
    ((do
      let h ← get
      let object ← Procedure.ofExcept (h.requireObject id)
      act h object : Action α) h).value = match h.world.registry.entries.get? id with
      | some entry => (act h entry.handle h).value
      | none => (.error (.unknownObject id), h) := by
  rw [Procedure.bind_value, Procedure.get_value]
  dsimp only
  rw [Procedure.bind_value, Procedure.ofExcept_value, requireObject_eq]
  cases h.world.registry.entries.get? id <;> rfl

theorem apply_destroy (hl : h.outbox.Lossless) (hevent : op.event = .destroy) :
    ∃ ops, Applied h op (apply op h).value.2 ops := by
  have hanswers : h.answers op = [] := answers_of_ne h (by rw [hevent]; decide)
  have hvalue : (apply op h).value = match requireId op with
      | .ok id => (destroy id h).value
      | .error e => (.error e, h) := by
    unfold apply
    rw [hevent]
    dsimp only
    rw [Procedure.bind_value, Procedure.ofExcept_value]
    cases requireId op <;> rfl
  unfold requireId at hvalue
  cases hid : nonEmpty? op.id with
  | none =>
      rw [hid] at hvalue
      refine ⟨[], ?_⟩
      rw [hvalue]
      exact applied_self (.unknown hevent rfl rfl fun id h => nomatch hid.symm.trans h) hanswers
  | some id =>
      rw [hid] at hvalue
      dsimp only at hvalue
      rw [hvalue]
      unfold destroy
      rw [required_value]
      cases hentry : h.world.registry.entries.get? id with
      | none =>
          refine ⟨[], applied_self (.unknown hevent rfl rfl fun other hother => ?_) hanswers⟩
          rw [← Option.some.inj (hid.symm.trans hother)]
          exact hentry
      | some entry =>
          dsimp only
          rw [Procedure.bind_value, Procedure.log_value]
          dsimp only
          rw [Procedure.bind_value, Procedure.set_value]
          dsimp only
          rw [Procedure.bind_value, Procedure.log_value]
          dsimp only
          rw [send_value (by exact hl)]
          refine ⟨_, .destroyed hevent id hid (by rw [hentry]; rfl) (fun other => ?_) ⟨_, rfl⟩, rfl,
            List.forall_mem_singleton.2 rfl, ?_, fun name hname => .inl ?_⟩
          · exact get?_remove h.world.registry id other
          · rw [hanswers]
            rfl
          · obtain ⟨tween, htween, hname⟩ := List.mem_filterMap.1 hname
            exact List.mem_filterMap.2 ⟨tween, (List.mem_filter.1 htween).1, hname⟩

-- The first checks of an operation on an object: its identifier, and then its payload.
theorem apply_checked {α : Type} (op : Operation) (read : Json → Option α)
    (action : String → α → Action Unit) (happly : apply op = do
      let id ← Procedure.ofExcept (requireId op)
      action id (← payload op read)) :
    (apply op h).value = match nonEmpty? op.id, op.payload read with
      | some id, .ok a => (action id a h).value
      | some _, .error e => (.error (.codec e), h)
      | none, _ => (.error (.missingId op.event.name), h) := by
  rw [happly, Procedure.bind_value, Procedure.ofExcept_value]
  unfold requireId
  cases nonEmpty? op.id with
  | none => rfl
  | some id =>
      dsimp only
      rw [Procedure.bind_value, payload_value]
      cases op.payload read <;> rfl

-- An operation that reaches no object: it names none, its payload is malformed, or nothing is
-- registered by the name.
def Misses {α : Type} (h : Host) (op : Operation) (read : Json → Option α) : Prop :=
  ∀ id a, nonEmpty? op.id = some id → op.payload read = .ok a →
    h.world.registry.entries.get? id = none

-- An operation on an object is done to the object, or it misses and leaves the host alone.
theorem apply_addressed {α : Type} (op : Operation) (read : Json → Option α)
    (action : String → α → Action Unit) (happly : apply op = do
      let id ← Procedure.ofExcept (requireId op)
      action id (← payload op read))
    {act : String → α → Host → Handle → Action Unit}
    (haction : ∀ id a, action id a = do
      let h ← get
      let object ← Procedure.ofExcept (h.requireObject id)
      act id a h object) :
    Misses h op read ∧ (apply op h).value.2 = h ∨
      ∃ id a entry, nonEmpty? op.id = some id ∧ op.payload read = .ok a ∧
        h.world.registry.entries.get? id = some entry ∧
        (apply op h).value = (act id a h entry.handle h).value := by
  rw [apply_checked (h := h) op read action happly]
  unfold Misses
  cases nonEmpty? op.id with
  | none => exact .inl ⟨nofun, rfl⟩
  | some id =>
      cases op.payload read with
      | error e => exact .inl ⟨nofun, rfl⟩
      | ok a =>
          dsimp only
          rw [haction, required_value]
          cases hentry : h.world.registry.entries.get? id with
          | none =>
              refine .inl ⟨fun other b hother _ => ?_, rfl⟩
              rw [← Option.some.inj hother]
              exact hentry
          | some entry => exact .inr ⟨id, a, entry, rfl, rfl, hentry, rfl⟩

theorem applied_kept {k : Host} {ops : List Operation} (hcreate : op.event ≠ .create)
    (hdestroy : op.event ≠ .destroy) (hinterests : op.event ≠ .updateInterests)
    (hregistry : k.world.registry = h.world.registry) (houtbox : k.outbox = h.outbox.posts ops)
    (hops : ∀ o ∈ ops, o.event.Settled ∧ o.event ≠ .created ∧ o.event ≠ .destroyed)
    (hanswers : ops.filter (·.event = .callback) = h.answers op)
    (hpromised : ∀ name ∈ k.promised, name ∈ h.promised ∨ name ∈ animationNames op) :
    Applied h op k ops := by
  refine ⟨.kept hcreate hdestroy (fun id => ?_) fun o ho => (hops o ho).2, houtbox,
    fun o ho => (hops o ho).1, hanswers, hpromised⟩
  simp only [interestsAfter_of_ne hinterests, hregistry]
  exact Option.map_id'.symm

-- Whatever else an operation does, it leaves registry, tweens and outbox alone.
theorem applied_quiet {k : Host} (hcreate : op.event ≠ .create) (hdestroy : op.event ≠ .destroy)
    (hinterests : op.event ≠ .updateInterests) (hanswers : h.answers op = [])
    (hregistry : k.world.registry = h.world.registry) (hanimator : k.animator = h.animator)
    (houtbox : k.outbox = h.outbox) : Applied h op k [] := by
  refine applied_kept hcreate hdestroy hinterests hregistry houtbox (List.forall_mem_nil _)
    hanswers.symm fun name hname => .inl ?_
  unfold promised at hname ⊢
  rwa [hanimator] at hname

theorem apply_update (hl : h.outbox.Lossless) (hevent : op.event = .update) :
    ∃ ops, Applied h op (apply op h).value.2 ops := by
  have hanswers : h.answers op = [] := answers_of_ne h (by rw [hevent]; decide)
  have hcreate : op.event ≠ .create := by rw [hevent]; decide
  have hdestroy : op.event ≠ .destroy := by rw [hevent]; decide
  have hinterests : op.event ≠ .updateInterests := by rw [hevent]; decide
  rcases apply_addressed (h := h) op Json.fields? update (by unfold apply; rw [hevent])
      (fun _ _ => rfl) with ⟨-, hsame⟩ | ⟨id, assignments, entry, -, -, -, hvalue⟩
  · rw [hsame]
    exact ⟨[], applied_quiet hcreate hdestroy hinterests hanswers rfl rfl rfl⟩
  · obtain ⟨k, reported, hupdate, scene, rfl⟩ := applyUpdate_still id entry.handle assignments h
    rw [hvalue, Procedure.bind_value, hupdate]
    dsimp only
    rw [report_value (by exact hl)]
    refine ⟨reports id reported, applied_kept hcreate hdestroy hinterests rfl rfl (fun o ho => ?_) ?_
      fun name hname => .inl hname⟩
    · rw [reports_event ho]
      exact ⟨rfl, by decide, by decide⟩
    · rw [hanswers, filter_reports]

theorem answers_of_misses (hmisses : Misses h op QueryRequest.ofJson?) : h.answers op = [] := by
  unfold answers
  split
  · split
    · next id paths callbackId hid hpayload =>
      rw [Registry.get?, hmisses id _ hid hpayload]
      rfl
    · rfl
  · rfl

theorem apply_query (hl : h.outbox.Lossless) (hevent : op.event = .query) :
    ∃ ops, Applied h op (apply op h).value.2 ops := by
  have hcreate : op.event ≠ .create := by rw [hevent]; decide
  have hdestroy : op.event ≠ .destroy := by rw [hevent]; decide
  have hinterests : op.event ≠ .updateInterests := by rw [hevent]; decide
  rcases apply_addressed (h := h) op QueryRequest.ofJson? query (by unfold apply; rw [hevent])
      (fun _ _ => rfl) with ⟨hmisses, hsame⟩ | ⟨id, request, entry, hid, hpayload, hentry, hvalue⟩
  · rw [hsame]
    exact ⟨[], applied_quiet hcreate hdestroy hinterests (answers_of_misses hmisses) rfl rfl rfl⟩
  · obtain ⟨paths, callbackId⟩ := request
    rw [hvalue, Procedure.bind_value, Procedure.log_value]
    cases callbackId with
    | none =>
        have hanswers : h.answers op = [] := by
          rw [answers, if_pos hevent, hid, hpayload]
        exact ⟨[], applied_quiet hcreate hdestroy hinterests hanswers rfl rfl rfl⟩
    | some callbackId =>
        have hanswers : h.answers op = [Operation.callback callbackId
            (.record (h.world.query (.object entry.handle) paths).value)] := by
          rw [answers, if_pos hevent, hid, hpayload]
          dsimp only
          rw [Registry.get?, hentry]
          rfl
        dsimp only [sendCallback]
        rw [send_value hl]
        refine ⟨_, applied_kept hcreate hdestroy hinterests rfl rfl (List.forall_mem_singleton.2 ?_) ?_
          fun name hname => .inl hname⟩
        · exact ⟨rfl, (nofun : Event.callback ≠ .created), (nofun : Event.callback ≠ .destroyed)⟩
        · rw [hanswers]
          rfl

theorem mem_names_start (id : String) (animations : List Animation) (ease : Ease) {name : String}
    {animator : Animator} (hname : name ∈ (animations.foldl (fun animator animation =>
      animator.start id animation ease) animator).filterMap (·.callbackId)) :
    name ∈ animator.filterMap (·.callbackId) ∨ name ∈ animations.filterMap (·.callbackId) := by
  induction animations generalizing animator with
  | nil => exact .inl hname
  | cons animation rest ih =>
      rcases ih hname with hname | hname
      · unfold Animator.start at hname
        rw [List.filterMap_append, List.mem_append] at hname
        rcases hname with hname | hname
        · exact .inl hname
        · simp only [List.mem_filterMap, List.mem_singleton, exists_eq_left] at hname
          exact .inr (List.mem_filterMap.2 ⟨animation, List.mem_cons_self, hname⟩)
      · obtain ⟨a, ha, hname⟩ := List.mem_filterMap.1 hname
        exact .inr (List.mem_filterMap.2 ⟨a, List.mem_cons_of_mem _ ha, hname⟩)

theorem apply_animate (hevent : op.event = .animate) :
    ∃ ops, Applied h op (apply op h).value.2 ops := by
  have hanswers : h.answers op = [] := answers_of_ne h (by rw [hevent]; decide)
  have hcreate : op.event ≠ .create := by rw [hevent]; decide
  have hdestroy : op.event ≠ .destroy := by rw [hevent]; decide
  have hinterests : op.event ≠ .updateInterests := by rw [hevent]; decide
  rcases apply_addressed (h := h) op (Json.listOf? Animation.ofJson?) animate
      (by unfold apply; rw [hevent]) (fun _ _ => rfl)
    with ⟨-, hsame⟩ | ⟨id, animations, entry, -, hpayload, -, hvalue⟩
  · rw [hsame]
    exact ⟨[], applied_quiet hcreate hdestroy hinterests hanswers rfl rfl rfl⟩
  · rw [hvalue]
    refine ⟨[], applied_kept hcreate hdestroy hinterests rfl rfl (List.forall_mem_nil _) hanswers.symm
      fun name hname => ?_⟩
    unfold animationNames
    rw [hevent, hpayload]
    exact mem_names_start id animations h.settings.defaultEase hname

theorem interestsAfter_of_misses (hmisses : Misses h op InterestChanges.ofJson?) {id : String}
    (hheld : (h.world.registry.entries.get? id).isSome) (interests : Dict String InterestSpec) :
    interestsAfter op id interests = interests := by
  unfold interestsAfter
  split
  · next hid =>
    cases hpayload : op.payload InterestChanges.ofJson? with
    | error e => rfl
    | ok changes =>
        rw [hmisses id changes hid.2 hpayload] at hheld
        cases hheld
  · rfl

theorem interestsAfter_changes (hevent : op.event = .updateInterests) {id : String}
    {changes : InterestChanges} (hid : nonEmpty? op.id = some id)
    (hpayload : op.payload InterestChanges.ofJson? = .ok changes) (other : String)
    (interests : Dict String InterestSpec) :
    interestsAfter op other interests =
      if other = id then changes.foldl changeInterest interests else interests := by
  unfold interestsAfter
  rw [hpayload, hid]
  by_cases hother : other = id
  · rw [if_pos ⟨hevent, by rw [hother]⟩, if_pos hother]
  · rw [if_neg fun h => hother (Option.some.inj h.2).symm, if_neg hother]

theorem apply_updateInterests (hevent : op.event = .updateInterests) :
    ∃ ops, Applied h op (apply op h).value.2 ops := by
  have hanswers : h.answers op = [] := answers_of_ne h (by rw [hevent]; decide)
  have hcreate : op.event ≠ .create := by rw [hevent]; decide
  have hdestroy : op.event ≠ .destroy := by rw [hevent]; decide
  rcases apply_addressed (h := h) op InterestChanges.ofJson? updateInterests
      (by unfold apply; rw [hevent]) (fun _ _ => rfl)
    with ⟨hmisses, hsame⟩ | ⟨id, changes, entry, hid, hpayload, -, hvalue⟩
  · rw [hsame]
    exact ⟨[], applied_self (kept_self hcreate hdestroy fun id interests hheld =>
      interestsAfter_of_misses hmisses hheld interests) hanswers⟩
  · rw [hvalue]
    refine ⟨[], .kept hcreate hdestroy (fun other => ?_) (List.forall_mem_nil _), rfl,
      List.forall_mem_nil _, hanswers.symm, fun name hname => .inl hname⟩
    refine (get?_mapInterests h.world.registry id other _).trans ?_
    simp only [interestsAfter_changes hevent hid hpayload]
    by_cases hother : other = id
    · rw [if_pos hother, hother]
      simp
    · rw [if_neg hother]
      simp [hother]

theorem apply_setGlobals (hevent : op.event = .setGlobals) :
    ∃ ops, Applied h op (apply op h).value.2 ops := by
  have hvalue : (apply op h).value = match (op.payload Json.fields?).mapError HostError.codec with
      | .ok globals => (setGlobals globals h).value
      | .error e => (.error e, h) := by
    unfold apply
    rw [hevent]
    dsimp only
    rw [Procedure.bind_value, payload_value]
    cases (op.payload Json.fields?).mapError HostError.codec <;> rfl
  refine ⟨[], applied_quiet ?_ ?_ ?_ (answers_of_ne h ?_) ?_ ?_ ?_⟩
  · rw [hevent]; decide
  · rw [hevent]; decide
  · rw [hevent]; decide
  · rw [hevent]; decide
  all_goals
    rw [hvalue]
    cases (op.payload Json.fields?).mapError HostError.codec <;> rfl

theorem apply_log (hevent : op.event = .log) : (apply op h).value.2 = h := by
  unfold apply
  rw [hevent]
  dsimp only
  rw [Procedure.bind_value, payload_value]
  cases (op.payload Json.fields?).mapError HostError.codec with
  | error e => rfl
  | ok data =>
      dsimp only
      unfold log
      cases (data.get? "line").bind Json.str? <;> rfl

theorem apply_spec (hl : h.outbox.Lossless) (op : Operation) :
    ∃ ops, Applied h op (apply op h).value.2 ops := by
  cases hevent : op.event with
  | create => exact apply_create hl hevent
  | destroy => exact apply_destroy hl hevent
  | update => exact apply_update hl hevent
  | query => exact apply_query hl hevent
  | animate => exact apply_animate hevent
  | updateInterests => exact apply_updateInterests hevent
  | setGlobals => exact apply_setGlobals hevent
  | log =>
      rw [apply_log hevent]
      exact ⟨[], applied_quiet (by rw [hevent]; decide) (by rw [hevent]; decide)
        (by rw [hevent]; decide) (answers_of_ne h (by rw [hevent]; decide)) rfl rfl rfl⟩
  | _ =>
      have hsame : (apply op h).value.2 = h := by
        unfold apply
        rw [hevent]
        rfl
      rw [hsame]
      exact ⟨[], applied_quiet (by rw [hevent]; simp) (by rw [hevent]; simp)
        (by rw [hevent]; simp) (answers_of_ne h (by rw [hevent]; simp)) rfl rfl rfl⟩

end Apply

section Frames

def tweenAnswers (completed : List Completed) : List Operation :=
  completed.filterMap fun done => done.callbackId.map fun id => Operation.callback id done.value

theorem notify_value (completed : List Completed) (h : Host) :
    (notify completed h).value = (.ok (), h.posts (tweenAnswers completed)) := by
  induction completed generalizing h with
  | nil => rfl
  | cons done rest ih =>
      unfold notify tweenAnswers
      cases hid : done.callbackId with
      | none =>
          rw [List.filterMap_cons_none (by rw [hid]; rfl)]
          exact ih h
      | some id =>
          rw [List.filterMap_cons_some (by rw [hid]; rfl)]
          dsimp only
          rw [Procedure.bind_value, sendLogged_value]
          exact ih (h.posted _)

end Frames

section Own

structure Done (h : Host) (deed : Deed) (k : Host) (ops : List Operation) : Prop where
  texts : k.outbox.texts = h.outbox.texts ++ ops.map Operation.text
  lossless : k.outbox.Lossless
  entries : ∀ id, (∀ handle, deed ≠ .register id handle) →
    k.world.registry.entries.get? id = h.world.registry.entries.get? id
  promised : ∀ name ∈ k.promised, name ∈ h.promised
  settled : ∀ o ∈ ops, o.event.Settled
  sent : ∀ o ∈ ops, o.event ≠ .created ∧ o.event ≠ .destroyed ∧
    (o.event = .callback → ∃ name ∈ h.promised, o.id = some name)

theorem done_self {h : Host} (hl : h.outbox.Lossless) (deed : Deed) : Done h deed h [] :=
  ⟨(List.append_nil _).symm, hl, fun _ _ => rfl, fun _ h => h, (fun _ h => nomatch h),
    fun _ h => nomatch h⟩

theorem tick_done {h : Host} (hl : h.outbox.Lossless) (dt : Double) :
    ∃ ops, Done h (.tick dt) (tick dt h).value.2 ops := by
  have hframe := Animator.advance_spec h.animator h.world dt
  generalize hadvanced : (h.animator.advance h.world dt).value = advanced at hframe
  obtain ⟨scene, hscene⟩ := hframe.world.scene
  let k : Host := { h with world := advanced.world, animator := advanced.running }
  have hk : k.outbox.Lossless := hl
  have hvalue : (tick dt h).value.2 =
      (k.posts (tweenAnswers advanced.completed)).setOutbox
        (k.outbox.posts (tweenAnswers advanced.completed)).ticked := by
    unfold tick
    rw [Procedure.bind_value, Procedure.get_value]
    dsimp only
    rw [Procedure.bind_value, Procedure.log_value, hadvanced]
    dsimp only
    rw [Procedure.bind_value, Procedure.set_value]
    dsimp only
    rw [Procedure.bind_value, notify_value]
    dsimp only
    rw [Procedure.bind_value, Procedure.outcome_value,
      tickOutbox_value (by exact Outbox.lossless_posts hk _)]
    rfl
  have hnames {t : Tween} (ht : t ∈ h.animator) {name : String} (hname : t.callbackId = some name) :
      name ∈ h.promised := List.mem_filterMap.2 ⟨t, ht, hname⟩
  rw [hvalue]
  refine ⟨tweenAnswers advanced.completed, ?_, ?_, fun id _ => ?_, fun name hname => ?_,
    fun o ho => ?_, fun o ho => ?_⟩
  · exact (Outbox.texts_ticked _).trans (Outbox.texts_posts h.outbox _)
  · exact Outbox.lossless_ticked (Outbox.lossless_posts hk _)
  · change advanced.world.registry.entries.get? id = _
    rw [hscene]
  · obtain ⟨u, hu, huname⟩ := List.mem_filterMap.1 hname
    obtain ⟨t, ht, source, elapsed, rfl⟩ := hframe.running u hu
    exact hnames ht huname
  · obtain ⟨done, hdone, hsome⟩ := List.mem_filterMap.1 ho
    obtain ⟨id, hid, rfl⟩ := Option.map_eq_some_iff.1 hsome
    rfl
  · obtain ⟨done, hdone, hsome⟩ := List.mem_filterMap.1 ho
    obtain ⟨id, hid, rfl⟩ := Option.map_eq_some_iff.1 hsome
    obtain ⟨t, ht, hends⟩ := hframe.completed done hdone
    exact ⟨by simp [Operation.callback], by simp [Operation.callback],
      fun _ => ⟨id, hnames ht (hends.callbackId.symm.trans hid), rfl⟩⟩

theorem emit_done {h : Host} (hl : h.outbox.Lossless) (id : String) {event : String}
    (hevent : (Event.ofName event).isCustom) (extra : Dict String Json) :
    ∃ ops, Done h (.emit id event extra) (emit id event extra h).value.2 ops := by
  unfold emit
  rw [Procedure.bind_value, Procedure.get_value]
  dsimp only
  rw [Procedure.bind_value, Procedure.ofExcept_value]
  cases h.requireObject id with
  | error e => exact ⟨[], done_self hl _⟩
  | ok handle =>
      dsimp only
      rw [Procedure.bind_value, Procedure.log_value]
      dsimp only
      cases (h.interestData id event).value with
      | none => exact ⟨[], done_self hl _⟩
      | some results =>
          dsimp only
          rw [Procedure.bind_value, send_value hl]
          refine ⟨[Operation.named event id (.record (extra.insertAll results))],
            Outbox.texts_posted _ _, Outbox.lossless_posted hl _, fun _ _ => rfl, fun _ h => h,
            List.forall_mem_singleton.2 (Event.settled_ofName event), fun o ho => ?_⟩
          rw [List.mem_singleton.1 ho]
          unfold Operation.named
          dsimp only
          cases hname : Event.ofName event with
          | custom name => exact ⟨by simp, by simp, fun h => nomatch h⟩
          | _ => rw [hname] at hevent; cases hevent

theorem register_done {h : Host} (hl : h.outbox.Lossless) (id : String) (handle : Handle) :
    Done h (.register id handle) (register id handle h).value.2 [] := by
  cases hcontains : h.world.registry.contains id with
  | false =>
      rw [register_value handle hcontains]
      refine ⟨(List.append_nil _).symm, hl, fun other hother => ?_, fun _ h => h,
        (fun _ h => nomatch h), fun _ h => nomatch h⟩
      have hne : other ≠ id := by
        rintro rfl
        exact hother handle rfl
      exact (Dict.get?_insert _ _ _ _).trans (if_neg hne)
  | true =>
      rw [register_refused handle hcontains]
      exact done_self hl _

theorem announce_value (h : Host) :
    (announce h).value.2 = (h.posted Operation.started).setOutbox
      (h.outbox.posted Operation.started).flushed := by
  unfold announce
  rw [Procedure.bind_value, Procedure.log_value]
  dsimp only
  rw [Procedure.bind_value, sendLogged_value]
  rfl

theorem announce_done {h : Host} (hl : h.outbox.Lossless) :
    Done h .announce (announce h).value.2 [Operation.started] := by
  rw [announce_value]
  refine ⟨(Outbox.texts_flushed _).trans (Outbox.texts_posted _ _),
    Outbox.lossless_flushed (Outbox.lossless_posted hl _), fun _ _ => rfl, fun _ h => h,
    List.forall_mem_singleton.2 rfl, fun o ho => ?_⟩
  rw [List.mem_singleton.1 ho]
  exact ⟨by decide, by decide, fun h => nomatch h⟩

theorem own_spec {h : Host} (hl : h.outbox.Lossless) {deed : Deed} (hown : deed.IsOwn) :
    ∃ ops, Done h deed (h.perform deed) ops := by
  cases deed with
  | apply op => exact hown.elim
  | flush =>
      refine ⟨[], ?_⟩
      unfold perform
      rw [flush_value hl]
      exact ⟨(Outbox.texts_flushed _).trans (List.append_nil _).symm, Outbox.lossless_flushed hl,
        fun _ _ => rfl, fun _ h => h, (fun _ h => nomatch h), fun _ h => nomatch h⟩
  | tick dt => exact tick_done hl dt
  | emit id event extra => exact emit_done hl id hown extra
  | register id handle => exact ⟨[], register_done hl id handle⟩
  | arrange scene resources catalog =>
      exact ⟨[], (List.append_nil _).symm, hl, fun _ _ => rfl, fun _ h => h, (fun _ h => nomatch h),
        fun _ h => nomatch h⟩
  | announce => exact ⟨_, announce_done hl⟩
  | collect => exact hown.elim

end Own

end Host

end SceneLink
