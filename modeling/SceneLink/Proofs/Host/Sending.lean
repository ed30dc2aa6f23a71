import SceneLink.Proofs.Host.Lifecycle
import SceneLink.Proofs.Host.Order

namespace SceneLink

open Json

-- An operation whose event is known by its name, with data in order.
structure Operation.Ordered (op : Operation) : Prop where
  settled : op.event.Settled
  data : ∀ data ∈ op.data, data.Sorted

section Batches

variable {json : Json} {op : Operation} {ops : List Operation} {raw : String}

theorem Operation.sorted_ofJson? (hjson : json.Sorted) (h : Operation.ofJson? json = some op) :
    ∀ data ∈ op.data, data.Sorted := by
  unfold Operation.ofJson? at h
  simp only [Option.bind_eq_bind, Option.bind_eq_some_iff] at h
  obtain ⟨fields, hfields, _, -, _, -, data, hdata, heq⟩ := h
  rw [← Option.some.inj heq]
  intro value hvalue
  have hread : fields.optional "data" some = _ := Json.Fields.optional_some (fields "data") rfl
  rw [hread] at hdata
  rw [← Option.some.inj hdata] at hvalue
  exact Fields.sorted_of_record? hjson hfields (Option.eq_some_of_filter_eq_some hvalue)

theorem Batch.sorted_keepOperations {entries : List Json} (hentries : ∀ entry ∈ entries, entry.Sorted) :
    ∀ op ∈ (keepOperations entries).value, ∀ data ∈ op.data, data.Sorted := by
  induction entries with
  | nil => exact fun _ hop => nomatch hop
  | cons entry entries ih =>
      obtain ⟨hentry, hrest⟩ := List.forall_mem_cons.1 hentries
      unfold keepOperations
      cases hread : Operation.ofJson? entry with
      | none => exact ih hrest
      | some op => exact List.forall_mem_cons.2 ⟨Operation.sorted_ofJson? hentry hread, ih hrest⟩

theorem Batch.sorted_decode (h : (decode raw).value = .ok ops) : ∀ op ∈ ops, ∀ data ∈ op.data, data.Sorted := by
  unfold decode at h
  cases hentries : entries? raw with
  | none =>
      rw [hentries] at h
      cases h
  | some entries =>
      rw [hentries] at h
      cases h
      refine sorted_keepOperations fun entry hmem => ?_
      unfold entries? at hentries
      dsimp only at hentries
      split at hentries
      · cases hentries
        cases hmem
      · obtain ⟨json, hjson, hitems⟩ := Option.bind_eq_some_iff.1 hentries
        cases json <;> cases hitems
        exact sorted_arr.1 (sorted_parseChars? hjson) entry hmem

end Batches

namespace Host

section Sends

variable {α β : Type} {h k : Host}

-- A procedure that queues operations in order only; `post` holds of the outcome and of the host it leaves.
def Sends (p : Action α) (h : Host) (post : Except HostError α → Host → Prop) : Prop :=
  ∃ trail r k, Goes p h trail r k ∧ (∀ op ∈ queued trail, op.Ordered) ∧ post r k

theorem Sends.looks {p : Action α} {post : Except HostError α → Host → Prop} {r : Except HostError α}
    (hvalue : (p h).value = (r, h)) (hpost : post r h) : Sends p h post :=
  ⟨[], r, h, .looks hvalue, (fun _ hop => nomatch hop), hpost⟩

theorem Sends.moves {p : Action α} {post : Except HostError α → Host → Prop} {r : Except HostError α}
    {m : Moment} (hvalue : (p h).value = (r, k)) (hmoves : Moves h k m)
    (hop : ∀ op, m.operation? = some op → op.Ordered) (hpost : post r k) : Sends p h post := by
  refine ⟨[(h, m)], r, k, .moves hvalue hmoves, fun op hmem => ?_, hpost⟩
  rw [queued_singleton] at hmem
  exact hop op (Option.mem_toList.1 hmem)

theorem Sends.rests {p : Action α} {post : Except HostError α → Host → Prop}
    (hmoves : Moves h (p h).value.2 .rests) (hpost : post (p h).value.1 (p h).value.2) : Sends p h post :=
  .moves rfl hmoves (fun _ hop => nomatch hop) hpost

variable {p : Action α} {f : α → Action β} {post : Except HostError β → Host → Prop}

theorem Sends.bind {mid : Except HostError α → Host → Prop} (hp : Sends p h mid)
    (hok : ∀ a k, mid (.ok a) k → Sends (f a) k post)
    (herror : ∀ e k, mid (.error e) k → post (.error e) k) : Sends (p >>= f) h post := by
  obtain ⟨trail, r, k, hgoes, hops, hmid⟩ := hp
  cases r with
  | error e => exact ⟨trail, .error e, k, .stops hgoes, hops, herror e k hmid⟩
  | ok a =>
      obtain ⟨rest, r, l, hrest, hmore, hpost⟩ := hok a k hmid
      refine ⟨trail ++ rest, r, l, .bind hgoes hrest, fun op hop => ?_, hpost⟩
      rw [queued_append] at hop
      rcases List.mem_append.1 hop with hop | hop
      · exact hops op hop
      · exact hmore op hop

theorem Sends.outcome {mid : Except HostError α → Host → Prop} (hp : Sends p h mid) :
    Sends (Procedure.outcome p : Action (Except HostError α)) h fun r k => ∃ a, r = .ok a ∧ mid a k := by
  obtain ⟨trail, r, k, hgoes, hops, hmid⟩ := hp
  exact ⟨trail, .ok r, k, .outcome hgoes, hops, r, rfl, hmid⟩

theorem Sends.looks_bind (hp : Procedure.Looks p) (hok : ∀ a, (p h).value.1 = .ok a → Sends (f a) h post)
    (herror : ∀ e, (p h).value.1 = .error e → post (.error e) h) : Sends (p >>= f) h post := by
  have hlooks : Sends p h fun r k => k = h ∧ (p h).value.1 = r := .looks (Prod.ext rfl (hp h)) ⟨rfl, rfl⟩
  refine hlooks.bind ?_ ?_
  · rintro a _ ⟨rfl, ha⟩
    exact hok a ha
  · rintro e _ ⟨rfl, he⟩
    exact herror e he

theorem Sends.get_bind {f : Host → Action β} (hf : Sends (f h) h post) : Sends (get >>= f) h post :=
  .looks_bind Procedure.looks_get (fun _ heq => Except.ok.inj heq ▸ hf) nofun

theorem Sends.log_bind {line : Logged Log.Line α} (hf : Sends (f line.value) h post) :
    Sends (Procedure.log line >>= f) h post :=
  .looks_bind (Procedure.looks_log line) (fun _ heq => Except.ok.inj heq ▸ hf) nofun

theorem Sends.ofExcept_bind {result : Except HostError α} (hok : ∀ a, result = .ok a → Sends (f a) h post)
    (herror : ∀ e, post (.error e) h) : Sends (Procedure.ofExcept result >>= f) h post :=
  .looks_bind (Procedure.looks_ofExcept result) hok fun e _ => herror e

end Sends

section Handlers

variable {h k : Host} {id : String} {object : Handle}

theorem send_sends (hh : h.Ordered) {op : Operation} (hop : op.Ordered) :
    Sends (send op) h fun _ k => k.Ordered := by
  have hvalue : (send op h).value = ((send op h).value.1, h.posted op) := Prod.ext rfl (send_state h op)
  refine .moves hvalue (moves_queues h op) (fun other hother => Option.some.inj hother ▸ hop) ?_
  exact ⟨hh.world, hh.registry, hh.tweens, hh.catalog⟩

theorem sendLogged_sends (hh : h.Ordered) {op : Operation} (hop : op.Ordered) :
    Sends (sendLogged op) h fun _ k => k.Ordered := by
  refine .moves (sendLogged_value h op) (moves_queues h op) (fun other hother => Option.some.inj hother ▸ hop) ?_
  exact ⟨hh.world, hh.registry, hh.tweens, hh.catalog⟩

theorem flush_sends (hh : h.Ordered) : Sends flush h fun _ k => k.Ordered :=
  .rests (flush_moves h) ⟨hh.world, hh.registry, hh.tweens, hh.catalog⟩

theorem tickOutbox_sends (hh : h.Ordered) : Sends tickOutbox h fun _ k => k.Ordered :=
  .rests (tickOutbox_moves h) ⟨hh.world, hh.registry, hh.tweens, hh.catalog⟩

theorem ordered_named (name id : String) {data : Json} (hdata : data.Sorted) :
    (Operation.named name id data).Ordered :=
  ⟨Event.settled_ofName name, fun _ h => Option.some.inj h ▸ hdata⟩

theorem ordered_callback (id : String) {data : Json} (hdata : data.Sorted) :
    (Operation.callback id data).Ordered :=
  ⟨rfl, fun _ h => Option.some.inj h ▸ hdata⟩

theorem report_sends (hh : h.Ordered) {reported : Dict String Json} (hreported : (record reported).Sorted) :
    Sends (report id reported) h fun _ k => k.Ordered := by
  unfold report
  split
  · exact .looks rfl hh
  · exact send_sends hh (ordered_named _ id hreported)

theorem Ordered.interestRecord (hh : h.Ordered) {event : String} :
    ∀ data ∈ (h.interestData id event).value.map Json.record, data.Sorted := by
  intro data hdata
  obtain ⟨results, hresults, rfl⟩ := Option.map_eq_some_iff.1 hdata
  exact hh.interestData hresults

theorem sendCreated_sends (hh : h.Ordered) : Sends (sendCreated id) h fun _ k => k.Ordered :=
  .get_bind (.log_bind (send_sends hh ⟨rfl, hh.interestRecord⟩))

theorem warned_sends {p : Action Unit} (hstill : Still h (p h).value.2) (hk : (p h).value.2.Ordered)
    (warning : HostError → String) : Sends (p.orWarn warning) h fun _ k => k.Ordered :=
  .moves (Procedure.orWarn_value _ _ _) (rests_of_still hstill) (fun _ hop => nomatch hop) hk

theorem applyUpdate_sends (hh : h.Ordered) {assignments : Dict String Json}
    (hassignments : (record assignments).Sorted) : Sends (applyUpdate id object assignments) h fun r k =>
      k.Ordered ∧ ∀ reported, r = .ok reported → (record reported).Sorted := by
  obtain ⟨k, reported, hvalue, hstill⟩ := applyUpdate_still id object assignments h
  have hordered := hh.applyUpdate id object hassignments
  rw [hvalue] at hordered
  exact .moves hvalue (rests_of_still hstill) (fun _ hop => nomatch hop) hordered

theorem Ordered.mapInterests (hh : h.Ordered) (id : String)
    {change : Dict String InterestSpec → Dict String InterestSpec}
    (hchange : ∀ interests : Dict String InterestSpec, (∀ interest ∈ interests, interest.2.query.Sorted) →
      ∀ interest ∈ change interests, interest.2.query.Sorted) :
    Host.Ordered { h with world.registry := h.world.registry.mapInterests id change } :=
  ⟨⟨hh.world.scene, hh.world.resources⟩, hh.registry.mapInterests id hchange, hh.tweens, hh.catalog⟩

theorem configure_sends (hh : h.Ordered) {template : Template} (htemplate : template.Formed) :
    Sends (configure template object) h fun _ k => k.Ordered := by
  refine .bind (applyUpdate_sends hh htemplate.update) (fun reported k hk => ?_) fun _ _ hk => hk.1
  let named : Host := { k with
    world.registry := k.world.registry.mapInterests template.id fun _ => template.interests }
  have hnamed : named.Ordered :=
    hk.1.mapInterests template.id fun _ _ interest hmem => (htemplate.specs interest hmem).1.paths.sorted
  have hmoves : Moves k named .rests := moves_rests (fun other => knows_mapInterests k _ other _) rfl rfl
  have hmodify : Sends (modify fun k => { k with
      world.registry := k.world.registry.mapInterests template.id fun _ => template.interests }) k
      fun _ k => k.Ordered := .rests hmoves hnamed
  refine .bind hmodify (fun _ l hl => ?_) fun _ _ hl => hl
  refine .bind (warned_sends (deliver_still _ _ _) (hl.deliver _ _) _) (fun _ _ hm => ?_) fun _ _ hm => hm
  exact .bind (sendCreated_sends hm) (fun _ _ hn => report_sends hn (hk.2 reported rfl)) fun _ _ hn => hn

theorem place_sends (hh : h.Ordered) (template : Template) : Sends (place template) h fun _ k => k.Ordered := by
  have hordered := hh.place template
  rcases place_value template h with ⟨e, he⟩ | ⟨object, scene, hplace, -, hfresh⟩
  · exact .looks he hh
  · rw [hplace] at hordered
    exact .moves hplace (moves_registers hfresh rfl rfl rfl) (fun _ hop => nomatch hop) hordered

theorem create_sends (hh : h.Ordered) {template : Template} (htemplate : template.Formed) :
    Sends (create template) h fun _ k => k.Ordered := by
  refine .bind (place_sends hh template) (fun object k hk => ?_) fun _ _ hk => hk
  refine .bind (warned_sends (deliver_still _ _ _) (hk.deliver _ _) _) (fun _ l hl => ?_) fun _ _ hl => hl
  cases nonEmpty? template.parent with
  | none => exact configure_sends hl htemplate
  | some parent =>
      refine .bind (warned_sends (attach_still _ _ _ _) (hl.attach _ _ _) _) (fun _ m hm => ?_) fun _ _ hm => hm
      exact configure_sends hm htemplate

theorem update_sends (hh : h.Ordered) (id : String) {assignments : Dict String Json}
    (hassignments : (record assignments).Sorted) : Sends (update id assignments) h fun _ k => k.Ordered := by
  refine .get_bind (.ofExcept_bind (fun object _ => ?_) fun _ => hh)
  exact .bind (applyUpdate_sends hh hassignments) (fun reported k hk => report_sends hk.1 (hk.2 reported rfl))
    fun _ _ hk => hk.1

theorem query_sends (hh : h.Ordered) (id : String) {request : QueryRequest} (hquery : request.query.Sorted) :
    Sends (query id request) h fun _ k => k.Ordered := by
  refine .get_bind (.ofExcept_bind (fun object _ => .log_bind ?_) fun _ => hh)
  have hroot : (Node.object object).Ordered := trivial
  cases request.callbackId with
  | none => exact .looks rfl hh
  | some callbackId => exact send_sends hh (ordered_callback callbackId (hh.world.query hroot hquery))

theorem animate_sends (hh : h.Ordered) (id : String) {animations : List Animation}
    (hanimations : ∀ animation ∈ animations, animation.target.Sorted) :
    Sends (animate id animations) h fun _ k => k.Ordered := by
  refine .get_bind (.ofExcept_bind (fun object hobject => ?_) fun _ => hh)
  have hmoves : Moves h _ (.starts id animations) := ⟨knows_of_requireObject hobject, rfl⟩
  refine .moves rfl hmoves (fun _ hop => nomatch hop) ⟨hh.world, hh.registry, fun t ht => ?_, hh.catalog⟩
  rcases mem_foldl_start ht with ht | ⟨animation, hmem, rfl⟩
  · exact hh.tweens t ht
  · exact ⟨hanimations animation hmem, fun _ hnone => nomatch hnone⟩

theorem updateInterests_sends (hh : h.Ordered) (id : String) {changes : InterestChanges}
    (hchanges : ∀ change ∈ changes, ∀ spec, change.2 = some spec → spec.query.Sorted) :
    Sends (updateInterests id changes) h fun _ k => k.Ordered := by
  refine .get_bind (.ofExcept_bind (fun object _ => ?_) fun _ => hh)
  refine .rests (moves_rests (fun other => knows_mapInterests h id other _) rfl rfl) (hh.mapInterests id ?_)
  intro interests hinterests
  induction changes generalizing interests with
  | nil => exact hinterests
  | cons change rest ih =>
      obtain ⟨hfirst, hrest⟩ := List.forall_mem_cons.1 hchanges
      refine ih hrest _ fun interest hmem => ?_
      unfold changeInterest at hmem
      split at hmem
      · next spec hspec =>
        rcases Dict.mem_insert hmem with rfl | hmem
        · exact hfirst spec hspec
        · exact hinterests interest hmem
      · exact hinterests interest (List.mem_filter.1 hmem).1

theorem destroy_sends (hh : h.Ordered) (id : String) : Sends (destroy id) h fun _ k => k.Ordered := by
  refine .get_bind (.ofExcept_bind (fun object hobject => .log_bind ?_) fun _ => hh)
  let op : Operation :=
    { Operation.destroyed id with data := (h.interestData id Event.destroyed.name).value.map Json.record }
  have hop : op.Ordered := ⟨rfl, hh.interestRecord⟩
  let k : Host := { h with
    world := { h.world with registry := h.world.registry.remove id }
    animator := (h.animator.cancel id).2 }
  have hk : (k.posted op).Ordered :=
    ⟨⟨hh.world.scene, hh.world.resources⟩, hh.registry.remove id,
      fun t ht => hh.tweens t (List.mem_filter.1 ht).1, hh.catalog⟩
  refine .moves (r := (send op k).value.1) ?_ (moves_forgets hobject op.data)
    (fun other heq => Option.some.inj heq ▸ hop) hk
  rw [Procedure.bind_value, Procedure.set_value]
  dsimp only
  rw [Procedure.bind_value, Procedure.log_value]
  exact Prod.ext rfl (send_state k op)

theorem setGlobals_sends (hh : h.Ordered) (globals : Dict String Json) :
    Sends (setGlobals globals) h fun _ k => k.Ordered :=
  .rests (moves_rests (fun _ => Iff.rfl) rfl rfl) ⟨hh.world, hh.registry, hh.tweens, hh.catalog⟩

theorem log_sends (hh : h.Ordered) (data : Dict String Json) : Sends (log data) h fun _ k => k.Ordered := by
  unfold log
  split <;> exact .looks rfl hh

section Payloads

variable {op : Operation}

theorem sorted_of_payload {α : Type} {read : Json → Option α} {a : α} (hop : ∀ data ∈ op.data, data.Sorted)
    (h : op.payload read = .ok a) : ∃ json : Json, json.Sorted ∧ read json = some a := by
  unfold Operation.payload at h
  cases hread : read (op.data.getD .null) with
  | none =>
      rw [hread] at h
      cases h
  | some b =>
      rw [hread] at h
      cases h
      refine ⟨_, ?_, hread⟩
      cases hdata : op.data with
      | none => trivial
      | some data => exact hop data hdata

theorem sorted_assignments {json : Json} {fields : Dict String Json} (hjson : json.Sorted)
    (h : json.fields? = some fields) : (record fields).Sorted := by
  cases json <;> cases h
  exact hjson

theorem sorted_request {json : Json} {request : QueryRequest} (hjson : json.Sorted)
    (h : QueryRequest.ofJson? json = some request) : request.query.Sorted := by
  unfold QueryRequest.ofJson? at h
  simp only [Option.bind_eq_bind, Option.bind_eq_some_iff] at h
  obtain ⟨fields, hfields, query, hquery, _, -, heq⟩ := h
  rw [← Option.some.inj heq]
  obtain ⟨held, hheld, hread⟩ := Option.bind_eq_some_iff.1 hquery
  exact (of_dictOf? hread (Fields.sorted_of_record? hjson hfields hheld)).1

theorem sorted_target {json : Json} {animation : Animation} (hjson : json.Sorted)
    (h : Animation.ofJson? json = some animation) : animation.target.Sorted := by
  unfold Animation.ofJson? at h
  simp only [Option.bind_eq_bind, Option.bind_eq_some_iff] at h
  obtain ⟨fields, hfields, _, -, target, htarget, _, -, _, -, _, -, _, -, heq⟩ := h
  rw [← Option.some.inj heq]
  obtain ⟨held, hheld, hread⟩ := Option.bind_eq_some_iff.1 htarget
  cases hread
  exact Fields.sorted_of_record? hjson hfields hheld

theorem sorted_changes {json : Json} {changes : InterestChanges} (hjson : json.Sorted)
    (h : InterestChanges.ofJson? json = some changes) :
    ∀ change ∈ changes, ∀ spec, change.2 = some spec → spec.query.Sorted := by
  intro change hmem spec hspec
  obtain ⟨value, hvalue, hread⟩ := (of_dictOf? h hjson).2 change hmem
  rw [hspec] at hread
  have hspec : InterestSpec.ofJson? value = some spec := by
    unfold nullable? at hread
    split at hread
    · cases hread
    · obtain ⟨other, hother, heq⟩ := Option.map_eq_some_iff.1 hread
      cases heq
      exact hother
  exact (InterestSpec.of_ofJson? hspec hvalue).1.paths.sorted

end Payloads

theorem apply_sends (hh : h.Ordered) {op : Operation} (hop : ∀ data ∈ op.data, data.Sorted) :
    Sends (apply op) h fun _ k => k.Ordered := by
  have hpayload {α : Type} {read : Json → Option α} {f : α → Action Unit}
      (hf : ∀ json a, json.Sorted → read json = some a → Sends (f a) h fun _ k => k.Ordered) :
      Sends (payload op read >>= f) h fun _ k => k.Ordered := by
    refine .ofExcept_bind (fun a ha => ?_) fun _ => hh
    obtain ⟨json, hjson, hread⟩ := sorted_of_payload hop (ok_of_mapError ha)
    exact hf json a hjson hread
  have hid {f : String → Action Unit} (hf : ∀ id, Sends (f id) h fun _ k => k.Ordered) :
      Sends (Procedure.ofExcept (requireId op) >>= f) h fun _ k => k.Ordered :=
    .ofExcept_bind (fun id _ => hf id) fun _ => hh
  unfold apply
  cases op.event with
  | create =>
      exact hpayload fun json template hjson hread => create_sends hh (Template.of_ofJson? hread hjson).1
  | update =>
      exact hid fun id => hpayload fun json _ hjson hread => update_sends hh id (sorted_assignments hjson hread)
  | query =>
      exact hid fun id => hpayload fun json _ hjson hread => query_sends hh id (sorted_request hjson hread)
  | animate =>
      refine hid fun id => hpayload fun json animations hjson hread => ?_
      refine animate_sends hh id fun animation hmem => ?_
      obtain ⟨value, hvalue, hone⟩ := of_listOf? hread hjson animation hmem
      exact sorted_target hvalue hone
  | updateInterests =>
      refine hid fun id => hpayload fun json _ hjson hread => ?_
      exact updateInterests_sends hh id (sorted_changes hjson hread)
  | destroy => exact hid (destroy_sends hh)
  | setGlobals => exact hpayload fun _ globals _ _ => setGlobals_sends hh globals
  | log => exact hpayload fun _ data _ _ => log_sends hh data
  | callback | started | created | destroyed | custom => exact .looks rfl hh

theorem applyLogged_sends (hh : h.Ordered) {op : Operation} (hop : ∀ data ∈ op.data, data.Sorted) :
    Sends (applyLogged op) h fun _ k => k.Ordered := by
  refine .bind (apply_sends hh hop).outcome (fun result k hk => ?_) ?_
  · obtain ⟨r, -, hk⟩ := hk
    cases result with
    | ok _ => exact .looks rfl hk
    | error e =>
        refine .get_bind ?_
        split <;> exact .looks rfl hk
  · rintro e k ⟨r, heq, -⟩
    cases heq

theorem notify_sends (hh : h.Ordered) {completed : List Completed}
    (hcompleted : ∀ done ∈ completed, done.value.Sorted) : Sends (notify completed) h fun _ k => k.Ordered := by
  induction completed generalizing h with
  | nil => exact .looks rfl hh
  | cons done rest ih =>
      obtain ⟨hfirst, hrest⟩ := List.forall_mem_cons.1 hcompleted
      unfold notify
      cases done.callbackId with
      | none => exact ih hh hrest
      | some callbackId =>
          have hop := ordered_callback callbackId hfirst
          exact .bind (sendLogged_sends hh hop) (fun _ k hk => ih hk hrest) fun _ _ hk => hk

theorem outcome_sends {p : Action Unit} (hp : Sends p h fun _ k => k.Ordered) :
    Sends (do let _ ← p.outcome : Action Unit) h fun _ k => k.Ordered := by
  refine .bind hp.outcome (fun _ k hk => ?_) ?_
  · obtain ⟨r, -, hk⟩ := hk
    exact .looks rfl hk
  · rintro e k ⟨r, heq, -⟩
    cases heq

theorem tick_sends (hh : h.Ordered) (dt : Double) : Sends (tick dt) h fun _ k => k.Ordered := by
  refine .get_bind (.log_bind ?_)
  let advanced := (h.animator.advance h.world dt).value
  obtain ⟨hworld, hrunning, hcompleted⟩ := Animator.ordered_advance dt hh.tweens hh.world
  let k : Host := { h with world := advanced.world, animator := advanced.running }
  have hk : k.Ordered := by
    refine ⟨hworld, ?_, hrunning, hh.catalog⟩
    obtain ⟨scene, hscene⟩ := (Animator.advance_spec h.animator h.world dt).world.scene
    change advanced.world.registry.Ordered
    rw [show advanced.world = { h.world with scene := scene } from hscene]
    exact hh.registry
  have hset : Sends (set k : Action PUnit) h fun _ k => k.Ordered :=
    .moves (m := .advances dt) rfl rfl (fun _ hop => nomatch hop) hk
  refine .bind hset (fun _ l hl => ?_) fun _ _ hl => hl
  refine .bind (notify_sends hl hcompleted) (fun _ m hm => ?_) fun _ _ hm => hm
  exact outcome_sends (tickOutbox_sends hm)

theorem emit_sends (hh : h.Ordered) (id event : String) {extra : Dict String Json}
    (hextra : (record extra).Sorted) : Sends (emit id event extra) h fun _ k => k.Ordered := by
  refine .get_bind (.ofExcept_bind (fun object _ => .log_bind ?_) fun _ => hh)
  cases hdata : (h.interestData id event).value with
  | none => exact .looks rfl hh
  | some results =>
      have hop := ordered_named event id (sorted_insertAll hextra (hh.interestData hdata))
      exact .bind (send_sends hh hop) (fun _ _ hk => .looks rfl hk) fun _ _ hk => hk

theorem register_sends (hh : h.Ordered) (id : String) (object : Handle) :
    Sends (register id object) h fun _ k => k.Ordered := by
  cases hcontains : h.world.registry.contains id with
  | true => exact .looks (register_refused object hcontains) hh
  | false =>
      have hnone : ∀ interest ∈ ({ handle := object } : Registration).interests, interest.2.query.Sorted :=
        fun _ h => nomatch h
      refine .moves (register_value object hcontains) (moves_registers hcontains rfl rfl rfl)
        (fun _ hop => nomatch hop) ?_
      exact ⟨⟨hh.world.scene, hh.world.resources⟩, hh.registry.insert hnone _, hh.tweens, hh.catalog⟩

theorem announce_sends (hh : h.Ordered) : Sends announce h fun _ k => k.Ordered := by
  have hstarted : Operation.started.Ordered := ⟨rfl, fun _ h => nomatch h⟩
  refine .log_bind (.bind (sendLogged_sends hh hstarted) (fun _ k hk => ?_) fun _ _ hk => hk)
  exact outcome_sends (flush_sends hk)

end Handlers

section Deeds

-- What the program around a host gives to it is in order.
def Supplies : Deed → Prop
  | .apply op => ∀ data ∈ op.data, data.Sorted
  | .emit _ _ extra => (record extra).Sorted
  | .arrange scene resources catalog =>
      scene.Ordered ∧ (∀ name node, resources.get? name = some node → node.Ordered) ∧ catalog.Ordered
  | _ => True

variable {h k : Host}

theorem perform_sends (hh : h.Ordered) {deed : Deed} (hown : (∃ op, deed = .apply op) ∨ deed.IsOwn)
    (hdeed : Supplies deed) : Sends (actionOf deed) h fun _ k => k.Ordered := by
  cases deed with
  | apply op => exact applyLogged_sends hh hdeed
  | flush => exact flush_sends hh
  | tick dt => exact tick_sends hh dt
  | emit id event extra =>
      exact .bind (emit_sends hh id event hdeed) (fun _ _ hk => .looks rfl hk) fun _ _ hk => hk
  | register id object => exact register_sends hh id object
  | arrange scene resources catalog =>
      obtain ⟨hscene, hresources, hcatalog⟩ := hdeed
      refine .rests (moves_rests (fun _ => Iff.rfl) rfl rfl) ⟨⟨hscene, ?_⟩, hh.registry, hh.tweens, hcatalog⟩
      exact hresources
  | announce => exact announce_sends hh
  | collect => exact (hown.resolve_left nofun).elim

-- What a batch has for a host is in order, since it was read from a text.
theorem supplies_deedsOf (raw : String) : ∀ deed ∈ Session.deedsOf raw, Supplies deed := by
  intro deed hdeed
  rcases Session.deedsOf_mem hdeed with ⟨ops, hdecode, op, hop, rfl⟩ | rfl
  · exact Batch.sorted_decode hdecode op hop
  · exact trivial

def Chapter.Ordered (c : Chapter) : Prop := ∀ op ∈ queued c.trail, op.Ordered

theorem chronicle_sends (hh : h.Ordered) {deeds : List Deed}
    (hown : ∀ deed ∈ deeds, (∃ op, deed = .apply op) ∨ deed.IsOwn)
    (hdeeds : ∀ deed ∈ deeds, Supplies deed) :
    ∃ chapters, Chronicle h chapters (h.after deeds) ∧ chapters.map (·.deed) = deeds ∧
      ∀ op ∈ queued (trailOf chapters), op.Ordered := by
  have hstep : ∀ deed ∈ deeds, ∀ s : Host, s.Ordered → ∃ trail r next,
      Goes (actionOf deed) s trail r next ∧ next.Ordered ∧ Chapter.Ordered ⟨s, deed, trail⟩ := by
    intro deed hmem s hs
    obtain ⟨trail, r, next, hgoes, hops, hnext⟩ := perform_sends hs (hown deed hmem) (hdeeds deed hmem)
    exact ⟨trail, r, next, hgoes, hnext, hops⟩
  obtain ⟨chapters, hchronicle, hmap, hall⟩ := chronicle_of_steps hh hstep
  refine ⟨chapters, hchronicle, hmap, fun op hop => ?_⟩
  obtain ⟨entry, hentry, heq⟩ := List.mem_filterMap.1 hop
  obtain ⟨c, hc, hmem⟩ := List.mem_flatMap.1 hentry
  exact hall c hc op (List.mem_filterMap.2 ⟨entry, hmem, heq⟩)

end Deeds

end Host

end SceneLink
