import SceneLink.Proofs.Host.Creation
import SceneLink.Proofs.Host.Naming
import SceneLink.Proofs.Link.Triple

namespace SceneLink.Host

open Procedure

-- A property that outlives every single change of a host that adds no object.
structure Steady (P : Host → Prop) : Prop where
  sending : ∀ h op, P h → P (h.posted op)
  flushing : ∀ h, P h → P (h.setOutbox h.outbox.flushed)
  collecting : ∀ h, P h → P h.collect.2
  globals : ∀ h globals, P h → P { h with globals }
  animator : ∀ h animator, P h → P { h with animator }
  registry : ∀ h (change : Registry.Change), P h →
    P { h with world.registry := h.world.registry.apply change }
  delivery : ∀ h object events scene, h.world.scene.deliver object events = .ok scene → P h →
    P (h.setScene scene)
  assignment : ∀ h object path expr, P h →
    P { h with world := (h.world.assign (.object object) path expr).world }
  frame : ∀ h dt, P h → P { h with world := (h.animator.advance h.world dt).value.world }

theorem applyUpdate_keeps_of {P : Host → Prop} {object : Handle}
    (hassign : ∀ text raw, Keeps P (assign object text raw)) (id : String) (assignments : Dict String Json) :
    Keeps P (applyUpdate id object assignments) := by
  induction assignments with
  | nil => exact (succeeds_pure _).keeps
  | cons entry rest ih =>
      obtain ⟨text, raw⟩ := entry
      unfold applyUpdate
      refine (hassign text raw).outcome.keeps.bind fun result => ?_
      cases result with
      | error e => exact (succeeds_log _).keeps.bind fun _ => ih.bind fun _ => (succeeds_pure _).keeps
      | ok json =>
          refine ih.bind fun reported => ?_
          cases json <;> exact (succeeds_pure _).keeps

namespace Steady

variable {P : Host → Prop} (hP : Steady P)

include hP

section Sending

theorem send_keeps (op : Operation) : Keeps P (send op) := by
  refine keeps_iff.2 fun h hh => ?_
  rw [send_state]
  exact hP.sending h op hh

theorem flush_keeps : Keeps P flush := by
  refine Keeps.onPart fun h hh => ?_
  rw [mapError_value, Outbox.flush_state]
  exact hP.flushing h hh

theorem tickOutbox_keeps : Keeps P tickOutbox := by
  refine Keeps.onPart fun h hh => ?_
  rw [mapError_value, Outbox.tick_state]
  unfold Outbox.ticked
  split
  · exact hP.flushing h hh
  · exact hh

theorem sendLogged_succeeds (op : Operation) : Succeeds P (sendLogged op) := (hP.send_keeps op).orWarn _

theorem announce_keeps : Keeps P announce :=
  (succeeds_log _).keeps.bind fun _ => (hP.sendLogged_succeeds _).keeps.bind fun _ =>
    hP.flush_keeps.outcome.keeps.bind fun _ => (succeeds_pure _).keeps

theorem report_keeps (id : String) (reported : Dict String Json) : Keeps P (report id reported) := by
  unfold report
  split
  · exact (succeeds_pure _).keeps
  · exact hP.send_keeps _

theorem sendCreated_keeps (id : String) : Keeps P (sendCreated id) :=
  succeeds_get.keeps.bind fun _ => (succeeds_log _).keeps.bind fun _ => hP.send_keeps _

end Sending

section Scene

theorem deliver_keeps (object : Handle) (events : List TemplateEvent) : Keeps P (deliver object events) := by
  refine keeps_iff.2 fun h hh => ?_
  rw [deliver_value]
  cases hscene : h.world.scene.deliver object (events.map (·.event)) with
  | error e => exact hh
  | ok scene => exact hP.delivery h object _ scene hscene hh

theorem assign_keeps (object : Handle) (text : String) (raw : Json) : Keeps P (assign object text raw) := by
  refine keeps_iff.2 fun h hh => ?_
  rw [assign_value]
  cases Path.parse text with
  | error e => exact hh
  | ok path =>
      cases Expression.ofJson raw with
      | error e => exact hh
      | ok expr => exact hP.assignment h object path expr hh

theorem applyUpdate_keeps (id : String) (object : Handle) (assignments : Dict String Json) :
    Keeps P (applyUpdate id object assignments) :=
  applyUpdate_keeps_of (hP.assign_keeps object) id assignments

theorem configure_keeps (template : Template) (object : Handle) : Keeps P (configure template object) := by
  refine (hP.applyUpdate_keeps _ _ _).bind fun reported => ?_
  have hinterests (h : Host) := hP.registry h (.interests template.id fun _ => template.interests)
  refine (succeeds_modify fun h hh => by exact hinterests h hh).keeps.bind fun _ => ?_
  refine ((hP.deliver_keeps _ _).orWarn _).keeps.bind fun _ => ?_
  exact (hP.sendCreated_keeps _).bind fun _ => hP.report_keeps _ _

theorem create_keeps (hplace : ∀ template, Keeps P (place template))
    (hattach : ∀ child parent stays, Keeps P (attach child parent stays)) (template : Template) :
    Keeps P (create template) := by
  refine (hplace template).bind fun object => ?_
  have hrest := hP.configure_keeps template object
  refine ((hP.deliver_keeps _ _).orWarn _).keeps.bind fun _ => ?_
  cases nonEmpty? template.parent with
  | none => exact hrest
  | some parent => exact ((hattach _ _ _).orWarn _).keeps.bind fun _ => hrest

end Scene

section Handlers

theorem update_keeps (id : String) (assignments : Dict String Json) : Keeps P (update id assignments) := by
  refine succeeds_get.keeps.bind fun _ => ((looks_ofExcept _).meets _).bind fun object => ?_
  exact (hP.applyUpdate_keeps _ _ _).bind fun _ => hP.report_keeps _ _

theorem query_keeps (id : String) (request : QueryRequest) : Keeps P (query id request) := by
  refine succeeds_get.keeps.bind fun _ => ((looks_ofExcept _).meets _).bind fun object => ?_
  refine (succeeds_log _).keeps.bind fun results => ?_
  cases request.callbackId with
  | none => exact (succeeds_log _).keeps
  | some callbackId => exact hP.send_keeps _

theorem animate_keeps (id : String) (animations : List Animation) : Keeps P (animate id animations) :=
  keeps_get fun h hh => (looks_ofExcept _).bind_restores hh fun _ =>
    (succeeds_set (by exact hP.animator h _ hh)).keeps.restores hh

theorem updateInterests_keeps (id : String) (changes : InterestChanges) : Keeps P (updateInterests id changes) := by
  refine keeps_get fun h hh => (looks_ofExcept _).bind_restores hh fun _ => ?_
  have hchanged := hP.registry h (.interests id fun interests => changes.foldl changeInterest interests) hh
  exact (succeeds_set (by exact hchanged)).keeps.restores hh

theorem destroy_keeps (id : String) : Keeps P (destroy id) := by
  refine keeps_get fun h hh => (looks_ofExcept _).bind_restores hh fun _ => ?_
  refine (looks_log _).bind_restores hh fun data => restores_set ?_ ?_
  · exact hP.animator _ _ (hP.registry h (.remove id) hh)
  · exact (succeeds_log _).keeps.bind fun _ => hP.send_keeps _

theorem setGlobals_keeps (globals : Dict String Json) : Keeps P (setGlobals globals) :=
  (succeeds_modify fun h hh => by exact hP.globals h _ hh).keeps

omit hP in
theorem log_keeps (data : Dict String Json) : Keeps P (log data) := by
  unfold log
  split
  · exact (succeeds_log _).keeps
  · exact (looks_ofExcept (.error _)).meets _

theorem apply_keeps {op : Operation} (hcreate : op.event = .create → ∀ template, Keeps P (create template)) :
    Keeps P (apply op) := by
  have hpayload {α β : Type} (read : Json → Option α) {f : α → Action β}
      (hf : ∀ a, Keeps P (f a)) : Keeps P (payload op read >>= f) :=
    ((looks_ofExcept _).meets _).bind hf
  have hid {β : Type} {f : String → Action β} (hf : ∀ id, Keeps P (f id)) :
      Keeps P (Procedure.ofExcept (requireId op) >>= f) :=
    ((looks_ofExcept _).meets _).bind hf
  unfold apply
  cases hevent : op.event with
  | create => exact hpayload _ (hcreate hevent)
  | update => exact hid fun id => hpayload _ (hP.update_keeps id)
  | query => exact hid fun id => hpayload _ (hP.query_keeps id)
  | animate => exact hid fun id => hpayload _ (hP.animate_keeps id)
  | updateInterests => exact hid fun id => hpayload _ (hP.updateInterests_keeps id)
  | destroy => exact hid hP.destroy_keeps
  | setGlobals => exact hpayload _ hP.setGlobals_keeps
  | log => exact hpayload _ log_keeps
  | callback | started | created | destroyed | custom => exact (looks_ofExcept (.error _)).meets _

end Handlers

section Frames

theorem notify_keeps (completed : List Completed) : Keeps P (notify completed) := by
  induction completed with
  | nil => exact (succeeds_pure _).keeps
  | cons done rest ih =>
      unfold notify
      cases done.callbackId with
      | none => exact ih
      | some callbackId => exact (hP.sendLogged_succeeds _).keeps.bind fun _ => ih

theorem tick_keeps (dt : Double) : Keeps P (tick dt) := by
  refine keeps_get fun h hh => restores_log (restores_set ?_ ?_)
  · exact hP.animator _ _ (hP.frame h dt hh)
  · exact (hP.notify_keeps _).bind fun _ => hP.tickOutbox_keeps.outcome.keeps.bind fun _ =>
      (succeeds_pure _).keeps

theorem emit_keeps (id event : String) (extra : Dict String Json) : Keeps P (emit id event extra) := by
  refine succeeds_get.keeps.bind fun _ => ((looks_ofExcept _).meets _).bind fun _ => ?_
  refine (succeeds_log _).keeps.bind fun results => ?_
  cases results with
  | none => exact (succeeds_pure _).keeps
  | some results => exact (hP.send_keeps _).bind fun _ => (succeeds_pure _).keeps

theorem register_keeps (id : String) (handle : Handle) : Keeps P (register id handle) := by
  refine keeps_iff.2 fun h hh => ?_
  cases hid : h.world.registry.contains id with
  | true =>
      rw [register_refused handle hid]
      exact hh
  | false =>
      have hchanged := hP.registry h (.insert id handle) hh
      rw [Registry.apply_insert_fresh hid] at hchanged
      rw [register_value handle hid]
      exact hchanged

theorem perform_keeps {deed : Deed} (happly : ∀ op, deed = .apply op → Keeps P (apply op))
    (harrange : ∀ h scene resources catalog, deed = .arrange scene resources catalog → P h → P (h.perform deed))
    {h : Host} (hh : P h) : P (h.perform deed) := by
  cases deed with
  | apply op =>
      rw [perform_apply]
      exact keeps_iff.1 (happly op rfl) h hh
  | flush => exact keeps_iff.1 hP.flush_keeps h hh
  | tick dt => exact keeps_iff.1 (hP.tick_keeps dt) h hh
  | emit id event extra => exact keeps_iff.1 (hP.emit_keeps id event extra) h hh
  | register id handle => exact keeps_iff.1 (hP.register_keeps id handle) h hh
  | arrange scene resources catalog => exact harrange h scene resources catalog rfl hh
  | announce => exact keeps_iff.1 hP.announce_keeps h hh
  | collect => exact hP.collecting h hh

end Frames

end Steady

end SceneLink.Host
