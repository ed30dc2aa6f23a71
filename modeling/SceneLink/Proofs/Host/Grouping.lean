import SceneLink.Proofs.Host.Deeds
import SceneLink.Proofs.Link.Grouping

namespace SceneLink.Host

open Procedure

-- Equality but for the grouping of what is sent.
def Like (h k : Host) : Prop := ∃ o, k = h.setOutbox o ∧ h.outbox.Like o

section Like

variable {h k l : Host}

theorem Like.refl (h : Host) : h.Like h := ⟨h.outbox, rfl, .refl _⟩

theorem Like.symm (hl : h.Like k) : k.Like h := by
  obtain ⟨o, rfl, ho⟩ := hl
  exact ⟨h.outbox, rfl, ho.symm⟩

theorem Like.trans (hl : h.Like k) (hl' : k.Like l) : h.Like l := by
  obtain ⟨o, rfl, ho⟩ := hl
  obtain ⟨p, rfl, hp⟩ := hl'
  exact ⟨p, rfl, ho.trans hp⟩

-- With nothing pending, hosts that are alike are equal once the transport has taken what they sent.
theorem Like.eq_of_flushed (hl : h.Like k) (hh : h.outbox.pending = [] ∧ h.outbox.scheduled = false)
    (hk : k.outbox.pending = [] ∧ k.outbox.scheduled = false) :
    h.collect.2 = k.collect.2 ∧
      h.outbox.handed.flatMap Handover.split = k.outbox.handed.flatMap Handover.split := by
  obtain ⟨o, rfl, ho⟩ := hl
  obtain ⟨hsame, hpieces⟩ := ho.eq_of_flushed hh hk
  exact ⟨congrArg h.setOutbox hsame, hpieces⟩

end Like

-- An action with the same result from hosts that are alike, which are alike after it.
abbrev Blind {α : Type} (p : Action α) : Prop := Alike Like p p

section Sending

theorem send_blind (op : Operation) : Blind (send op) := by
  rintro h _ ⟨o, rfl, ho⟩
  unfold send
  rw [onPart_value, onPart_value, mapError_value, mapError_value]
  refine ⟨congrArg (Except.mapError _) (ho.send_result op), _, rfl, ?_⟩
  rw [Outbox.send_state, Outbox.send_state]
  exact ho.posted op

theorem setWorld_blind (world : World) : Blind (setWorld world) := by
  refine alike_modify fun h k hl => ?_
  obtain ⟨o, rfl, ho⟩ := hl
  exact ⟨o, rfl, ho⟩

theorem report_blind (id : String) (reported : Dict String Json) : Blind (report id reported) := by
  unfold report
  split
  · exact alike_pure _
  · exact send_blind _

theorem sendCreated_blind (id : String) : Blind (sendCreated id) := by
  refine alike_get fun h k hl => ?_
  obtain ⟨o, rfl, ho⟩ := hl
  exact (alike_log _).bind fun _ => send_blind _

end Sending

section Creating

theorem deliver_blind (object : Handle) (events : List TemplateEvent) : Blind (deliver object events) := by
  refine alike_get fun h k hl => ?_
  obtain ⟨o, rfl, ho⟩ := hl
  exact (alike_ofExcept _).bind fun _ => setWorld_blind _

theorem attach_blind (child : Handle) (parent : String) (stays : Bool) :
    Blind (attach child parent stays) := by
  refine alike_get fun h k hl => ?_
  obtain ⟨o, rfl, ho⟩ := hl
  exact (alike_ofExcept _).bind fun _ => setWorld_blind _

theorem assign_blind (object : Handle) (text : String) (raw : Json) : Blind (assign object text raw) := by
  refine (alike_ofExcept _).bind fun path => (alike_ofExcept _).bind fun expr => ?_
  refine alike_get fun h k hl => ?_
  obtain ⟨o, rfl, ho⟩ := hl
  exact (setWorld_blind _).bind fun _ => (alike_ofExcept _).bind fun _ => alike_pure _

theorem applyUpdate_blind (id : String) (object : Handle) (assignments : Dict String Json) :
    Blind (applyUpdate id object assignments) := by
  induction assignments with
  | nil => exact alike_pure _
  | cons assignment rest ih =>
      obtain ⟨text, raw⟩ := assignment
      refine (assign_blind object text raw).outcome.bind fun outcome => ?_
      cases outcome with
      | ok written => cases written with
        | some json => exact ih.bind fun reported => alike_pure _
        | none => exact ih.bind fun reported => alike_pure _
      | error e => exact (alike_log _).bind fun _ => ih.bind fun reported => alike_pure _

theorem register_blind (id : String) (handle : Handle) : Blind (register id handle) := by
  refine alike_get fun h k hl => ?_
  obtain ⟨o, rfl, ho⟩ := hl
  refine (alike_log _).bind fun inserted => ?_
  cases inserted with
  | ok registry => exact alike_set ⟨o, rfl, ho⟩
  | error e => exact alike_throw _

theorem place_blind (template : Template) : Blind (place template) := by
  refine alike_get fun h k hl => ?_
  obtain ⟨o, rfl, ho⟩ := hl
  refine Alike.unless (Alike.unless ?_)
  refine (alike_log _).bind fun built => (alike_ofExcept _).bind fun made => ?_
  refine (alike_ofExcept _).bind fun scene => (setWorld_blind _).bind fun _ => ?_
  exact (register_blind _ _).bind fun _ => (alike_log _).bind fun _ => alike_pure _

theorem create_blind (template : Template) : Blind (create template) := by
  refine (place_blind template).bind fun object => ?_
  refine ((deliver_blind _ _).orWarn _).bind fun _ => ?_
  have hrest : Blind (configure template object) := by
    refine (applyUpdate_blind _ _ _).bind fun reported => ?_
    refine Alike.bind (alike_modify fun h k hl => ?_) fun _ => ?_
    · obtain ⟨o, rfl, ho⟩ := hl
      exact ⟨o, rfl, ho⟩
    · refine ((deliver_blind _ _).orWarn _).bind fun _ => ?_
      exact (sendCreated_blind _).bind fun _ => report_blind _ _
  cases nonEmpty? template.parent with
  | none => exact hrest
  | some parent => exact ((attach_blind _ _ _).orWarn _).bind fun _ => hrest

end Creating

section Handlers

theorem update_blind (id : String) (assignments : Dict String Json) : Blind (update id assignments) := by
  refine alike_get fun h k hl => ?_
  obtain ⟨o, rfl, ho⟩ := hl
  refine (alike_ofExcept _).bind fun object => ?_
  exact (applyUpdate_blind _ _ _).bind fun _ => report_blind _ _

theorem query_blind (id : String) (request : QueryRequest) : Blind (query id request) := by
  refine alike_get fun h k hl => ?_
  obtain ⟨o, rfl, ho⟩ := hl
  refine (alike_ofExcept _).bind fun object => (alike_log _).bind fun results => ?_
  cases request.callbackId with
  | none => exact alike_log _
  | some callbackId => exact send_blind _

theorem animate_blind (id : String) (animations : List Animation) : Blind (animate id animations) := by
  refine alike_get fun h k hl => ?_
  obtain ⟨o, rfl, ho⟩ := hl
  exact (alike_ofExcept _).bind fun _ => alike_set ⟨o, rfl, ho⟩

theorem updateInterests_blind (id : String) (changes : InterestChanges) :
    Blind (updateInterests id changes) := by
  refine alike_get fun h k hl => ?_
  obtain ⟨o, rfl, ho⟩ := hl
  exact (alike_ofExcept _).bind fun _ => alike_set ⟨o, rfl, ho⟩

theorem destroy_blind (id : String) : Blind (destroy id) := by
  refine alike_get fun h k hl => ?_
  obtain ⟨o, rfl, ho⟩ := hl
  refine (alike_ofExcept _).bind fun _ => (alike_log _).bind fun data => ?_
  refine Alike.bind (alike_set ⟨o, rfl, ho⟩) fun _ => ?_
  exact (alike_log _).bind fun _ => send_blind _

theorem setGlobals_blind (globals : Dict String Json) : Blind (setGlobals globals) := by
  refine alike_modify fun h k hl => ?_
  obtain ⟨o, rfl, ho⟩ := hl
  exact ⟨o, rfl, ho⟩

theorem log_blind (data : Dict String Json) : Blind (log data) := by
  unfold log
  split
  · exact alike_log _
  · exact alike_throw _

end Handlers

theorem apply_blind (op : Operation) : Blind (apply op) := by
  have hid : Blind (Procedure.ofExcept (requireId op)) := alike_ofExcept _
  unfold apply
  cases op.event with
  | create => exact (alike_ofExcept _).bind fun _ => create_blind _
  | update => exact hid.bind fun _ => (alike_ofExcept _).bind fun _ => update_blind _ _
  | query => exact hid.bind fun _ => (alike_ofExcept _).bind fun _ => query_blind _ _
  | animate => exact hid.bind fun _ => (alike_ofExcept _).bind fun _ => animate_blind _ _
  | updateInterests => exact hid.bind fun _ => (alike_ofExcept _).bind fun _ => updateInterests_blind _ _
  | destroy => exact hid.bind fun _ => destroy_blind _
  | setGlobals => exact (alike_ofExcept _).bind fun _ => setGlobals_blind _
  | log => exact (alike_ofExcept _).bind fun _ => log_blind _
  | _ => exact alike_throw _

-- A flush changes nothing but the grouping.
theorem like_flush (h : Host) : (h.perform .flush).Like h := by
  refine Like.symm ⟨h.outbox.flushed, ?_, (Outbox.like_flushed _).symm⟩
  change (flush h).value.2 = _
  unfold flush
  rw [onPart_value, mapError_value, Outbox.flush_state]

theorem Like.apply {h k : Host} (hl : h.Like k) (op : Operation) :
    (h.perform (.apply op)).Like (k.perform (.apply op)) := by
  rw [perform_apply, perform_apply]
  exact (apply_blind op h k hl).2

theorem Like.applyEach {h k : Host} (hl : h.Like k) (ops : List Operation) :
    (h.after (ops.map .apply)).Like (k.after (ops.map .apply)) := by
  induction ops generalizing h k with
  | nil => exact hl
  | cons op ops ih => exact ih (hl.apply op)

end SceneLink.Host
