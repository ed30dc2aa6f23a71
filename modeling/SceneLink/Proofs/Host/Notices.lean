import SceneLink.Proofs.Host.Trail
import SceneLink.Proofs.Outcome

namespace SceneLink

namespace Host

-- The event of an object that comes or goes.
def IsNotice (op : Operation) : Prop := op.event = .created ∨ op.event = .destroyed

instance (op : Operation) : Decidable (IsNotice op) := inferInstanceAs (Decidable (_ ∨ _))

def notices (trail : Entries) : List Operation := (queued trail).filter fun op => IsNotice op

-- What is queued with an identifier answers a callback, or is about an object that is registered then.
def Orderly (s : Host) : Moment → Prop
  | .queues op => ∀ id, op.id = some id →
      op.event = .callback ∨ ((op.event = .created ∨ op.event.isCustom = true) ∧ s.Knows id)
  | _ => True

-- An orderly trail with these notices.
structure Conveys (ops : List Operation) (trail : Entries) : Prop where
  orderly : ∀ entry ∈ trail, Orderly entry.1 entry.2
  notices : notices trail = ops

section Conveys

variable {h : Host} {m : Moment} {op : Operation} {ops : List Operation} {trail rest : Entries}

theorem conveys_nil : Conveys [] [] := ⟨fun _ hentry => absurd hentry List.not_mem_nil, rfl⟩

theorem Conveys.append {more : List Operation} (hs : Conveys ops trail) (hs' : Conveys more rest) :
    Conveys (ops ++ more) (trail ++ rest) where
  orderly entry hentry := (List.mem_append.1 hentry).elim (hs.orderly entry) (hs'.orderly entry)
  notices := by
    unfold Host.notices
    rw [queued_append, List.filter_append]
    exact congrArg₂ (· ++ ·) hs.notices hs'.notices

theorem queued_singleton (h : Host) (m : Moment) : queued [(h, m)] = m.operation?.toList := by
  cases m <;> rfl

theorem conveys_quiet (hm : ∀ op, m.operation? = some op → ¬ IsNotice op) (ho : Orderly h m) :
    Conveys [] [(h, m)] where
  orderly := List.forall_mem_singleton.2 ho
  notices := by
    unfold Host.notices
    rw [queued_singleton]
    cases hop : m.operation? with
    | none => rfl
    | some op => exact List.filter_cons_of_neg (by simpa using hm op hop)

theorem conveys_notice (hm : m.operation? = some op) (hop : IsNotice op) (ho : Orderly h m) :
    Conveys [op] [(h, m)] where
  orderly := List.forall_mem_singleton.2 ho
  notices := by
    unfold Host.notices
    rw [queued_singleton, hm]
    exact List.filter_cons_of_pos (by simpa using hop)

theorem Conveys.cons (hm : Conveys [] [(h, m)]) (hs : Conveys ops trail) : Conveys ops ((h, m) :: trail) :=
  hm.append hs

end Conveys

section Moments

variable {h k : Host} {id : String}

theorem send_ready (hh : h.Ready) (op : Operation) : (send op h).value = (.ok (), h.posted op) := by
  unfold send
  rw [Procedure.onPart_value, Procedure.mapError_value, Outbox.send_value_of_started hh]
  rfl

theorem posted_ready (hh : h.Ready) (op : Operation) : (h.posted op).Ready :=
  (h.outbox.started_posted op).trans hh

theorem moves_queues (h : Host) (op : Operation) : Moves h (h.posted op) (.queues op) := rfl

theorem moves_rests (hknows : ∀ id, k.Knows id ↔ h.Knows id) (hanimator : k.animator = h.animator)
    (htexts : k.outbox.texts = h.outbox.texts) : Moves h k .rests :=
  ⟨hknows, hanimator, htexts⟩

theorem rests_of_still (hs : Still h k) : Moves h k .rests := by
  obtain ⟨scene, rfl⟩ := hs
  exact moves_rests (fun _ => Iff.rfl) rfl rfl

theorem knows_of_still (hs : Still h k) : k.Knows id ↔ h.Knows id := (rests_of_still hs).1 id

theorem knows_mapInterests (h : Host) (id other : String)
    (change : Dict String InterestSpec → Dict String InterestSpec) :
    Knows { h with world.registry := h.world.registry.mapInterests id change } other ↔ h.Knows other := by
  unfold Knows Registry.contains Dict.contains
  rw [get?_mapInterests]
  split
  · next heq => rw [heq, Option.isSome_map]
  · exact Iff.rfl

theorem moves_registers {handle : Handle} (hfresh : h.world.registry.contains id = false)
    (hentries : k.world.registry.entries = h.world.registry.entries.insert id { handle := handle })
    (hanimator : k.animator = h.animator) (houtbox : k.outbox = h.outbox) : Moves h k (.registers id) := by
  refine ⟨by simp [Knows, hfresh], fun other => ?_, hanimator, houtbox⟩
  unfold Knows Registry.contains Dict.contains
  rw [hentries, Dict.get?_insert]
  by_cases hother : other = id <;> simp [hother]

theorem conveys_rests (h : Host) : Conveys [] [(h, .rests)] := conveys_quiet nofun trivial

end Moments

section Handlers

variable {h : Host} {id : String}

theorem conveys_custom {op : Operation} (hevent : op.event.isCustom = true) (hid : op.id = some id)
    (hknown : h.Knows id) : Conveys [] [(h, .queues op)] := by
  have horderly : Orderly h (.queues op) := by
    intro other hother
    rw [hid] at hother
    cases hother
    exact .inr ⟨.inr hevent, hknown⟩
  refine conveys_quiet (fun other hother hnotice => ?_) horderly
  cases hother
  rcases hnotice with hnotice | hnotice <;> (rw [hnotice] at hevent; cases hevent)

theorem conveys_callback {op : Operation} (hevent : op.event = .callback) : Conveys [] [(h, .queues op)] := by
  refine conveys_quiet (fun other hother hnotice => ?_) fun _ _ => .inl hevent
  cases hother
  rcases hnotice with hnotice | hnotice <;> (rw [hnotice] at hevent; cases hevent)

theorem conveys_created (hknown : h.Knows id) (data : Option Json) :
    Conveys [{ Operation.created id with data }] [(h, .queues { Operation.created id with data })] := by
  refine conveys_notice rfl (.inl rfl) fun other hother => ?_
  cases hother
  exact .inr ⟨.inl rfl, hknown⟩

theorem report_tells (hh : h.Ready) (hknown : h.Knows id) (reported : Dict String Json) :
    Tells (report id reported) h fun trail r => r = .ok () ∧ Conveys [] trail := by
  unfold report
  split
  · exact .looks rfl ⟨rfl, conveys_nil⟩
  · exact .moves (send_ready hh _) (moves_queues h _) ⟨rfl, conveys_custom rfl rfl hknown⟩

theorem sendCreated_ready (hh : h.Ready) (id : String) :
    ∃ data, (sendCreated id h).value = (.ok (), h.posted { Operation.created id with data }) := by
  unfold sendCreated
  rw [Procedure.bind_value, Procedure.get_value]
  dsimp only
  rw [Procedure.bind_value, Procedure.log_value]
  exact ⟨_, send_ready hh _⟩

theorem configure_tells (hh : h.Ready) (template : Template) (hknown : h.Knows template.id)
    (object : Handle) : Tells (configure template object) h fun trail r =>
      r = .ok () ∧ ∃ data, Conveys [{ Operation.created template.id with data }] trail := by
  obtain ⟨k, reported, hupdate, hstill⟩ := applyUpdate_still template.id object template.update h
  have hk : k.Ready := ready_of_still hh hstill
  refine .moves_bind hupdate (rests_of_still hstill) ?_
  let named : Host := { k with
    world.registry := k.world.registry.mapInterests template.id fun _ => template.interests }
  have hnamed : named.Knows template.id :=
    (knows_mapInterests k _ _ _).2 ((knows_of_still hstill).2 hknown)
  refine .moves_bind (k := named) rfl (moves_rests (fun other => knows_mapInterests k _ other _) rfl rfl) ?_
  have hdelivered := deliver_still object template.postEvents named
  refine .moves_bind (Procedure.orWarn_value _ _ _) (rests_of_still hdelivered) ?_
  have hready := ready_of_still (by exact hk) hdelivered
  have hthere := (knows_of_still hdelivered).2 hnamed
  obtain ⟨data, hsent⟩ := sendCreated_ready hready template.id
  refine .moves_bind hsent (moves_queues _ _) ?_
  refine (report_tells (posted_ready hready _) (by exact hthere) reported).mono ?_
  rintro trail r ⟨rfl, htold⟩
  refine ⟨rfl, data, (conveys_rests _).cons ((conveys_rests _).cons ((conveys_rests _).cons ?_))⟩
  exact (conveys_created hthere data).append htold

theorem create_tells (hh : h.Ready) (template : Template) :
    Tells (create template) h fun trail r => (∃ e, r = .error e ∧ Conveys [] trail) ∨
      r = .ok () ∧ ∃ data, Conveys [{ Operation.created template.id with data }] trail := by
  rcases place_value template h with ⟨e, he⟩ | ⟨handle, scene, hplace, -, hfresh⟩
  · exact ⟨[], .error e, h, .stops (.looks he), .inl ⟨e, rfl, conveys_nil⟩⟩
  · generalize hplaced : ({ h with world := { h.world with
      scene := scene
      registry :=
        { entries := h.world.registry.entries.insert template.id { handle := handle }
          names := h.world.registry.names.insert handle template.id } } } : Host) = placed at hplace
    have hmoves : Moves h placed (.registers template.id) := by
      rw [← hplaced]
      exact moves_registers hfresh rfl rfl rfl
    have hready : placed.Ready := by
      rw [← hplaced]
      exact hh
    have hknown : placed.Knows template.id := (hmoves.2.1 _).2 (.inl rfl)
    -- What hangs in its place can be configured, wherever deliveries and the attachment have left it.
    have hrest {l : Host} (hl : Still placed l) : Tells (configure template handle) l fun trail r =>
        r = .ok () ∧ ∃ data, Conveys [{ Operation.created template.id with data }] trail :=
      configure_tells (ready_of_still hready hl) template ((knows_of_still hl).2 hknown) handle
    refine .moves_bind hplace hmoves ?_
    have hdelivered := deliver_still handle template.preEvents placed
    refine .moves_bind (Procedure.orWarn_value _ _ _) (rests_of_still hdelivered) ?_
    have hregisters : Conveys [] [(h, .registers template.id)] := conveys_quiet nofun trivial
    cases nonEmpty? template.parent with
    | none =>
        refine (hrest hdelivered).mono ?_
        rintro trail r ⟨hr, data, htold⟩
        exact .inr ⟨hr, data, hregisters.cons ((conveys_rests _).cons htold)⟩
    | some parent =>
        have hattached := attach_still handle parent (template.worldPositionStays.getD true)
          (deliver handle template.preEvents placed).value.2
        refine .moves_bind (Procedure.orWarn_value _ _ _) (rests_of_still hattached) ?_
        refine (hrest (hdelivered.trans hattached)).mono ?_
        rintro trail r ⟨hr, data, htold⟩
        exact .inr ⟨hr, data, hregisters.cons ((conveys_rests _).cons ((conveys_rests _).cons htold))⟩

theorem knows_of_requireObject {handle : Handle} (hhandle : h.requireObject id = .ok handle) :
    h.Knows id := by
  unfold requireObject Registry.get? at hhandle
  unfold Knows Registry.contains Dict.contains
  cases hentry : h.world.registry.entries.get? id with
  | none =>
      rw [hentry] at hhandle
      cases hhandle
  | some entry => rfl

theorem update_tells (hh : h.Ready) (id : String) (assignments : Dict String Json) :
    Tells (update id assignments) h fun trail _ => Conveys [] trail := by
  refine .get_bind (.ofExcept_bind (fun handle hhandle => ?_) fun _ _ => conveys_nil)
  have hknown := knows_of_requireObject hhandle
  obtain ⟨k, reported, hupdate, hstill⟩ := applyUpdate_still id handle assignments h
  refine .moves_bind hupdate (rests_of_still hstill) ?_
  refine (report_tells (ready_of_still hh hstill) ((knows_of_still hstill).2 hknown) reported).mono ?_
  exact fun trail r htold => (conveys_rests _).cons htold.2

theorem query_tells (hh : h.Ready) (id : String) (request : QueryRequest) :
    Tells (query id request) h fun trail _ => Conveys [] trail := by
  refine .get_bind (.ofExcept_bind (fun handle hhandle => .log_bind ?_) fun _ _ => conveys_nil)
  cases request.callbackId with
  | none => exact .looks rfl conveys_nil
  | some callbackId => exact .moves (send_ready hh _) (moves_queues h _) (conveys_callback rfl)

theorem animate_tells (id : String) (animations : List Animation) :
    Tells (animate id animations) h fun trail _ => Conveys [] trail := by
  refine .get_bind (.ofExcept_bind (fun handle hhandle => ?_) fun _ _ => conveys_nil)
  have hmoves : Moves h _ (.starts id animations) := ⟨knows_of_requireObject hhandle, rfl⟩
  exact .moves rfl hmoves (conveys_quiet nofun trivial)

theorem updateInterests_tells (id : String) (changes : InterestChanges) :
    Tells (updateInterests id changes) h fun trail _ => Conveys [] trail := by
  refine .get_bind (.ofExcept_bind (fun handle hhandle => ?_) fun _ _ => conveys_nil)
  exact .moves rfl (moves_rests (fun other => knows_mapInterests h id other _) rfl rfl) (conveys_rests h)

theorem moves_forgets {handle : Handle} (hhandle : h.requireObject id = .ok handle) (data : Option Json) :
    Moves h (Host.posted { h with
      world := { h.world with registry := h.world.registry.remove id }
      animator := (h.animator.cancel id).2 } { Operation.destroyed id with data }) (.forgets id data) := by
  refine ⟨knows_of_requireObject hhandle, fun other => ?_, rfl, rfl⟩
  change ((h.world.registry.remove id).entries.get? other).isSome = true ↔ _
  rw [get?_remove]
  by_cases hother : other = id <;> simp [hother, Knows, Registry.contains, Dict.contains]

theorem destroy_tells (hh : h.Ready) (id : String) :
    Tells (destroy id) h fun trail r => (∃ e, r = .error e ∧ Conveys [] trail) ∨
      r = .ok () ∧ ∃ data, Conveys [{ Operation.destroyed id with data }] trail := by
  refine .get_bind (.ofExcept_bind (fun handle hhandle => .log_bind ?_) fun e _ => .inl ⟨e, rfl, conveys_nil⟩)
  let data := (h.interestData id Event.destroyed.name).value.map Json.record
  have hmoves := moves_forgets hhandle data
  refine .moves ?_ hmoves (.inr ⟨rfl, data, conveys_notice rfl (.inr rfl) trivial⟩)
  rw [Procedure.bind_value, Procedure.set_value]
  dsimp only
  rw [Procedure.bind_value, Procedure.log_value]
  exact send_ready (by exact hh) _

end Handlers

section Deeds

variable {h : Host}

-- The notices that go with the outcome of an operation: one for each object that comes or goes.
inductive Notice (op : Operation) : Except HostError Unit → List Operation → Prop
  | created {template : Template} (data : Option Json) (hevent : op.event = .create)
      (hpayload : op.payload Template.ofJson? = .ok template) :
      Notice op (.ok ()) [{ Operation.created template.id with data }]
  | destroyed {id : String} (data : Option Json) (hevent : op.event = .destroy)
      (hid : nonEmpty? op.id = some id) : Notice op (.ok ()) [{ Operation.destroyed id with data }]
  | nothing {r : Except HostError Unit} (hr : r = .ok () → op.event ≠ .create ∧ op.event ≠ .destroy) :
      Notice op r []

theorem payload_tells {α β : Type} {op : Operation} {read : Json → Option α} {f : α → Action β}
    {post : Entries → Except HostError β → Prop} (hok : ∀ a, op.payload read = .ok a → Tells (f a) h post)
    (herror : ∀ e, post [] (.error e)) : Tells (payload op read >>= f) h post :=
  .ofExcept_bind (fun a ha => hok a (ok_of_mapError ha)) fun e _ => herror e

theorem nonEmpty?_of_requireId {op : Operation} {id : String} (h : requireId op = .ok id) :
    nonEmpty? op.id = some id := by
  unfold requireId at h
  cases hid : nonEmpty? op.id with
  | none =>
      rw [hid] at h
      cases h
  | some other =>
      rw [hid] at h
      cases h
      rfl

theorem noticed_error (op : Operation) (e : HostError) :
    ∃ ops, Conveys ops [] ∧ Notice op (.error e) ops := ⟨[], conveys_nil, .nothing nofun⟩

theorem addressed_tells {α : Type} {op : Operation} (hcreate : op.event ≠ .create)
    (hdestroy : op.event ≠ .destroy) {read : Json → Option α} {f : String → α → Action Unit}
    (hf : ∀ id a, Tells (f id a) h fun trail _ => Conveys [] trail) :
    Tells (do f (← Procedure.ofExcept (requireId op)) (← payload op read)) h
      fun trail r => ∃ ops, Conveys ops trail ∧ Notice op r ops := by
  refine .ofExcept_bind (fun id _ => ?_) fun e _ => noticed_error op e
  refine payload_tells (fun a _ => (hf id a).mono fun trail r htold => ?_) (noticed_error op)
  exact ⟨[], htold, .nothing fun _ => ⟨hcreate, hdestroy⟩⟩

theorem apply_tells (hh : h.Ready) (op : Operation) :
    Tells (apply op) h fun trail r => ∃ ops, Conveys ops trail ∧ Notice op r ops := by
  unfold apply
  cases hevent : op.event with
  | create =>
      refine payload_tells (fun template hread => (create_tells hh template).mono ?_) (noticed_error op)
      rintro trail r (⟨e, rfl, htold⟩ | ⟨rfl, data, htold⟩)
      · exact ⟨[], htold, .nothing nofun⟩
      · exact ⟨_, htold, .created data hevent hread⟩
  | destroy =>
      refine .ofExcept_bind (fun id hid => (destroy_tells hh id).mono ?_) fun e _ => noticed_error op e
      rintro trail r (⟨e, rfl, htold⟩ | ⟨rfl, data, htold⟩)
      · exact ⟨[], htold, .nothing nofun⟩
      · exact ⟨_, htold, .destroyed data hevent (nonEmpty?_of_requireId hid)⟩
  | update => exact addressed_tells (by simp [hevent]) (by simp [hevent]) (update_tells hh)
  | query => exact addressed_tells (by simp [hevent]) (by simp [hevent]) (query_tells hh)
  | animate => exact addressed_tells (by simp [hevent]) (by simp [hevent]) animate_tells
  | updateInterests =>
      exact addressed_tells (by simp [hevent]) (by simp [hevent]) updateInterests_tells
  | setGlobals =>
      refine payload_tells (fun globals _ => ?_) (noticed_error op)
      refine .moves rfl (moves_rests (fun _ => Iff.rfl) rfl rfl) ⟨[], conveys_rests h, .nothing fun _ => ?_⟩
      simp [hevent]
  | log =>
      refine payload_tells (fun data _ => ?_) (noticed_error op)
      unfold log
      split
      · exact .looks rfl ⟨[], conveys_nil, .nothing fun _ => by simp [hevent]⟩
      · exact .looks rfl (noticed_error op _)
  | callback | started | created | destroyed | custom => exact .looks rfl (noticed_error op _)

theorem applyLogged_tells (hh : h.Ready) (op : Operation) :
    Tells (applyLogged op) h fun trail _ => ∃ ops, Conveys ops trail ∧ Notice op (apply op h).value.1 ops := by
  obtain ⟨trail, r, k, hgoes, hpost⟩ := apply_tells hh op
  rw [hgoes.value]
  refine ⟨trail ++ [], .ok (), k, .bind (.outcome hgoes) (.looks ?_), by rwa [List.append_nil]⟩
  cases r with
  | ok _ => rfl
  | error e =>
      dsimp only
      rw [Procedure.bind_value, Procedure.get_value]
      dsimp only
      split <;> rfl

-- The answers of tweens that have ended.
def Answers (completed : List Completed) (trail : Entries) : Prop :=
  ∀ op ∈ queued trail, ∃ done ∈ completed, ∃ name, done.callbackId = some name ∧
    op = Operation.callback name done.value

theorem notify_tells (completed : List Completed) (h : Host) :
    Tells (notify completed) h fun trail r => r = .ok () ∧ Conveys [] trail ∧ Answers completed trail := by
  induction completed generalizing h with
  | nil => exact .looks rfl ⟨rfl, conveys_nil, fun _ hop => absurd hop List.not_mem_nil⟩
  | cons done rest ih =>
      unfold notify
      cases hname : done.callbackId with
      | none =>
          refine (ih h).mono fun trail r hpost => ⟨hpost.1, hpost.2.1, fun op hop => ?_⟩
          exact (hpost.2.2 op hop).imp fun other h => ⟨List.mem_cons_of_mem _ h.1, h.2⟩
      | some name =>
          refine .moves_bind (sendLogged_value h _) (moves_queues h _) ?_
          refine (ih (h.posted _)).mono fun trail r hpost =>
            ⟨hpost.1, (conveys_callback rfl).cons hpost.2.1, fun op hop => ?_⟩
          rcases List.mem_cons.1 hop with rfl | hop
          · exact ⟨done, List.mem_cons_self, name, hname, rfl⟩
          · exact (hpost.2.2 op hop).imp fun other h => ⟨List.mem_cons_of_mem _ h.1, h.2⟩

theorem flush_moves (h : Host) : Moves h (flush h).value.2 .rests :=
  moves_rests (fun _ => Iff.rfl) rfl (Outbox.texts_flushed _)

theorem tickOutbox_moves (h : Host) : Moves h (tickOutbox h).value.2 .rests := by
  unfold tickOutbox
  rw [Procedure.onPart_value, Procedure.mapError_value, Outbox.tick_state]
  exact moves_rests (fun _ => Iff.rfl) rfl (Outbox.texts_ticked _)

-- A frame reports tweens that ran when it began.
def Frames (h : Host) (trail : Entries) : Prop :=
  ∀ op ∈ queued trail, ∃ t ∈ h.animator, ∃ name data, t.callbackId = some name ∧
    op = Operation.callback name data

theorem tick_tells (h : Host) (dt : Double) :
    Tells (tick dt) h fun trail _ => Conveys [] trail ∧ Frames h trail := by
  refine .get_bind (.log_bind ?_)
  have hadvances : Moves h { h with
      world := (h.animator.advance h.world dt).value.world
      animator := (h.animator.advance h.world dt).value.running } (.advances dt) := rfl
  refine .moves_bind rfl hadvances ?_
  refine .bind (notify_tells _ _) (fun trail a k hpost => ?_) (fun trail e hpost => nomatch hpost.1)
  refine .moves_bind (Procedure.outcome_value _ _) (tickOutbox_moves k) (.looks rfl ?_)
  have htrail : Conveys [] [(h, .advances dt)] := conveys_quiet nofun trivial
  refine ⟨htrail.cons (hpost.2.1.append (conveys_rests k)), fun op hop => ?_⟩
  have hqueued : queued ((h, .advances dt) :: (trail ++ [(k, .rests)])) = queued trail :=
    (queued_append trail [(k, .rests)]).trans (List.append_nil _)
  rw [hqueued] at hop
  obtain ⟨done, hdone, name, hname, rfl⟩ := hpost.2.2 op hop
  obtain ⟨t, ht, hends⟩ := (Animator.advance_spec h.animator h.world dt).completed done hdone
  exact ⟨t, ht, name, done.value, hends.callbackId.symm.trans hname, rfl⟩

theorem emit_tells (hh : h.Ready) (id : String) {event : String} (hevent : (Event.ofName event).isCustom)
    (extra : Dict String Json) : Tells (emit id event extra) h fun trail _ => Conveys [] trail := by
  refine .get_bind (.ofExcept_bind (fun handle hhandle => .log_bind ?_) fun _ _ => conveys_nil)
  cases (h.interestData id event).value with
  | none => exact .looks rfl conveys_nil
  | some results =>
      have htold : Conveys [] [(h, .queues (Operation.named event id (.record (extra.insertAll results))))] :=
        conveys_custom hevent rfl (knows_of_requireObject hhandle)
      exact .moves_bind (send_ready hh _) (moves_queues h _) (.looks rfl htold)

theorem register_tells (id : String) (handle : Handle) :
    Tells (register id handle) h fun trail _ => Conveys [] trail := by
  cases hcontains : h.world.registry.contains id with
  | false =>
      refine .moves (m := .registers id) (register_value handle hcontains) ?_ (conveys_quiet nofun trivial)
      exact moves_registers hcontains rfl rfl rfl
  | true => exact .looks (register_refused handle hcontains) conveys_nil

end Deeds

end Host

end SceneLink
