import SceneLink.Proofs.Session.Basic
import SceneLink.Proofs.Host.Steady

namespace SceneLink.Host

open Procedure

inductive Reachable : Host → Prop
  | start (settings : HostSettings) (catalog : Catalog) (transport : Transport) :
      Reachable (Host.start settings catalog transport).value
  | perform {h : Host} (hh : Reachable h) (deed : Deed) : Reachable (h.perform deed)
  | answer {h : Host} (hh : Reachable h) (callbackId : String) (data : Json) :
      Reachable (sendCallback callbackId data h).value.2
  -- The transport may be another one at any time, or come to refuse batches.
  | rewire {h : Host} (hh : Reachable h) (transport : Transport) :
      Reachable (h.setOutbox (h.outbox.setTransport transport))
  | collect {h : Host} (hh : Reachable h) : Reachable h.collect.2
  -- The application may change its objects, its resources and its plans at any time.
  | furnish {h : Host} (hh : Reachable h) (world : World) (catalog : Catalog) :
      Reachable { h with world, catalog }

-- Sends wait for the next flush.
def Ready (h : Host) : Prop := h.outbox.started = true

section Sending

variable {α : Type}

theorem ready_of_still {h k : Host} (hh : h.Ready) (hk : Still h k) : k.Ready := by
  obtain ⟨scene, rfl⟩ := hk
  exact hh

theorem ready_steady : Steady Ready where
  sending h op hh := (h.outbox.started_posted op).trans hh
  flushing h hh := h.outbox.started_flushed.trans hh
  collecting _ hh := hh
  globals _ _ hh := hh
  animator _ _ hh := hh
  registry _ _ hh := hh
  delivery _ _ _ _ _ hh := hh
  assignment _ _ _ _ hh := hh
  frame _ _ hh := hh

theorem keeps_of_still {p : Action α} (h : ∀ s, Still s (p s).value.2) : Keeps Ready p :=
  keeps_iff.2 fun s hs => ready_of_still hs (h s)

theorem send_succeeds (op : Operation) : Succeeds Ready (send op) := by
  intro h hh
  unfold send
  rw [onPart_value, mapError_value, Outbox.send_value_of_started hh]
  exact (h.outbox.started_posted op).trans hh

theorem sendLogged_succeeds (op : Operation) : Succeeds Ready (sendLogged op) :=
  (send_succeeds op).keeps.orWarn _

theorem announce_succeeds : Succeeds Ready announce := by
  refine (succeeds_log _).bind fun _ => (sendLogged_succeeds _).bind fun _ => ?_
  exact ready_steady.flush_keeps.outcome.bind fun _ => succeeds_pure _

theorem report_succeeds (id : String) (reported : Dict String Json) :
    Succeeds Ready (report id reported) := by
  unfold report
  split
  · exact succeeds_pure _
  · exact send_succeeds _

theorem sendCreated_succeeds (id : String) : Succeeds Ready (sendCreated id) :=
  succeeds_get.bind fun _ => (succeeds_log _).bind fun _ => send_succeeds _

end Sending

section Handlers

theorem applyUpdate_succeeds (id : String) (object : Handle) (assignments : Dict String Json) :
    Succeeds Ready (applyUpdate id object assignments) := by
  intro h hh
  obtain ⟨k, reported, hvalue, hstill⟩ := applyUpdate_still id object assignments h
  rw [hvalue]
  exact ready_of_still hh hstill

-- An object that cannot be built or registered is found out before the registry knows of it.
theorem place_guarded (template : Template) : Guarded Ready (place template) := by
  intro h hh s hs
  subst hs
  rcases place_value template s with ⟨e, he⟩ | ⟨handle, scene, hplace, -⟩
  · rw [he]
  · rw [hplace]
    exact hh

theorem configure_succeeds (template : Template) (object : Handle) :
    Succeeds Ready (configure template object) := by
  refine (applyUpdate_succeeds _ _ _).bind fun reported => ?_
  refine Succeeds.bind (succeeds_modify fun _ hh => by exact hh) fun _ => ?_
  refine ((keeps_of_still (deliver_still _ _)).orWarn _).bind fun _ => ?_
  exact (sendCreated_succeeds _).bind fun _ => report_succeeds _ _

theorem create_guarded (template : Template) : Guarded Ready (create template) := by
  refine (place_guarded template).bind fun object => ?_
  have hrest := configure_succeeds template object
  refine ((keeps_of_still (deliver_still _ _)).orWarn _).bind fun _ => ?_
  cases nonEmpty? template.parent with
  | none => exact hrest
  | some parent => exact ((keeps_of_still (attach_still _ _ _)).orWarn _).bind fun _ => hrest

theorem update_guarded (id : String) (assignments : Dict String Json) :
    Guarded Ready (update id assignments) := by
  refine looks_get.bind_guarded fun h => (looks_ofExcept _).bind_guarded fun object => ?_
  exact ((applyUpdate_succeeds _ _ _).bind fun _ => report_succeeds _ _).guarded

theorem query_guarded (id : String) (request : QueryRequest) : Guarded Ready (query id request) := by
  refine looks_get.bind_guarded fun h => (looks_ofExcept _).bind_guarded fun object => ?_
  refine (looks_log _).bind_guarded fun results => ?_
  cases request.callbackId with
  | none => exact (succeeds_log _).guarded
  | some callbackId => exact (send_succeeds _).guarded

theorem animate_guarded (id : String) (animations : List Animation) :
    Guarded Ready (animate id animations) :=
  guarded_get fun _ hh => (looks_ofExcept _).bind_guarded fun _ => (succeeds_set (by exact hh)).guarded

theorem updateInterests_guarded (id : String) (changes : InterestChanges) :
    Guarded Ready (updateInterests id changes) :=
  guarded_get fun _ hh => (looks_ofExcept _).bind_guarded fun _ => (succeeds_set (by exact hh)).guarded

theorem destroy_guarded (id : String) : Guarded Ready (destroy id) := by
  refine guarded_get fun h hh => (looks_ofExcept _).bind_guarded fun _ => ?_
  refine (looks_log _).bind_guarded fun data => ?_
  refine ((succeeds_set (by exact hh)).bind fun _ => ?_).guarded
  exact (succeeds_log _).bind fun _ => send_succeeds _

theorem setGlobals_guarded (globals : Dict String Json) : Guarded Ready (setGlobals globals) := by
  unfold setGlobals
  exact (succeeds_modify fun _ hh => by exact hh).guarded

theorem log_guarded (data : Dict String Json) : Guarded Ready (log data) := by
  unfold log
  split
  · exact (succeeds_log _).guarded
  · exact guarded_throw _

theorem apply_guarded (op : Operation) : Guarded Ready (apply op) := by
  have hpayload {α β : Type} (read : Json → Option α) {f : α → Action β}
      (hf : ∀ a, Guarded Ready (f a)) : Guarded Ready (payload op read >>= f) :=
    (looks_ofExcept _).bind_guarded hf
  have hid {β : Type} {f : String → Action β} (hf : ∀ id, Guarded Ready (f id)) :
      Guarded Ready (Procedure.ofExcept (requireId op) >>= f) :=
    (looks_ofExcept _).bind_guarded hf
  unfold apply
  cases op.event with
  | create => exact hpayload _ create_guarded
  | update => exact hid fun id => hpayload _ (update_guarded id)
  | query => exact hid fun id => hpayload _ (query_guarded id)
  | animate => exact hid fun id => hpayload _ (animate_guarded id)
  | updateInterests => exact hid fun id => hpayload _ (updateInterests_guarded id)
  | destroy => exact hid destroy_guarded
  | setGlobals => exact hpayload _ setGlobals_guarded
  | log => exact hpayload _ log_guarded
  | callback | started | created | destroyed | custom => exact guarded_throw _

end Handlers

section Reachable

variable {h : Host}

theorem perform_ready (hh : h.Ready) (deed : Deed) : (h.perform deed).Ready :=
  ready_steady.perform_keeps (fun op _ => (apply_guarded op).keeps)
    (fun _ _ _ _ heq hk => by rw [heq]; exact hk) hh

theorem Reachable.ready (hh : h.Reachable) : h.Ready := by
  induction hh with
  | start settings catalog transport =>
      unfold Host.start
      dsimp only
      split
      · exact keeps_iff.1 announce_succeeds.keeps _ rfl
      · rfl
  | perform hh deed ih => exact perform_ready ih deed
  | answer hh callbackId data ih => exact keeps_iff.1 (send_succeeds _).keeps _ ih
  | rewire hh transport ih => exact ih
  | collect hh ih => exact ih
  | furnish hh world catalog ih => exact ih

end Reachable

section Batch

-- Applies operations in order, up to the first that is refused.
def applyEach : List Operation → Action Unit
  | [] => return
  | op :: ops => do
    apply op
    applyEach ops

-- The operations of a batch that the host does not refuse at their turn.
def accepted (h : Host) : List Operation → List Operation
  | [] => []
  | op :: ops =>
    match (apply op h).value with
    | (.ok (), k) => op :: k.accepted ops
    | (.error _, k) => k.accepted ops

-- Those that are refused might as well not be there.
theorem applyEach_accepted {h : Host} (hh : h.Ready) (ops : List Operation) :
    (applyEach (h.accepted ops) h).value = (.ok (), h.after (ops.map .apply)) := by
  induction ops generalizing h with
  | nil => rfl
  | cons op ops ih =>
      have hready : (apply op h).value.2.Ready := keeps_iff.1 (apply_guarded op).keeps h hh
      have hafter : h.after ((op :: ops).map .apply) = (apply op h).value.2.after (ops.map .apply) := by
        rw [← perform_apply]
        rfl
      rw [hafter]
      unfold accepted
      rcases hvalue : (apply op h).value with ⟨result, k⟩
      rw [hvalue] at hready
      cases result with
      | ok u =>
          change ((apply op >>= fun _ => applyEach (k.accepted ops)) h).value = _
          rw [bind_value_ok hvalue]
          exact ih hready
      | error e =>
          have hsame : k = h := (apply_guarded op).eq_of_error hh hvalue
          dsimp only
          rw [hsame]
          exact ih hh

end Batch

-- An operation that the host refuses leaves the whole host as it was. So a batch leaves what its
-- accepted operations lead to, one after the other and without a failure, and the flush at the end.
theorem refused_without_trace {h : Host} (hh : h.Reachable) :
    (∀ (op : Operation) (e : HostError) (k : Host), (apply op h).value = (.error e, k) → k = h) ∧
    ∀ (raw : String) (ops : List Operation), (Batch.decode raw).value = .ok ops →
      ∃ k, (applyEach (h.accepted ops) h).value = (.ok (), k) ∧
        (receive raw h).value.2 = (flush k).value.2 := by
  refine ⟨fun op e k hvalue => (apply_guarded op).eq_of_error hh.ready hvalue, ?_⟩
  intro raw ops hdecode
  refine ⟨_, applyEach_accepted hh.ready ops, ?_⟩
  rw [Session.receive_value, Session.deedsOf_ok hdecode, after_append]
  rfl

-- A batch of two new objects, the second of a prefab that nobody has registered, and a change of
-- the globals.
section Ghost

def ghostOps : List Operation :=
  [Operation.create { id := "a" }, Operation.create { id := "b", prefab := some "ghost" },
    Operation.setGlobals [("level", .bool true)]]

def inhabited : Host := (Host.start {} {} {}).value.perform (.apply (Operation.create { id := "c" }))

theorem refused_without_trace_ghost :
    (∃ k, (apply (Operation.create { id := "b", prefab := some "ghost" }) inhabited).value =
        (.error (.unknownPrefab "ghost"), k) ∧ k = inhabited) ∧
    ∃ ops, (Batch.decode (Batch.encode ghostOps)).value = .ok ops ∧
      (inhabited.accepted ops).map (·.event) = [.create, .setGlobals] ∧
      ∃ k, (applyEach (inhabited.accepted ops) inhabited).value = (.ok (), k) ∧
        (receive (Batch.encode ghostOps) inhabited).value.2 = (flush k).value.2 := by
  have hreach : inhabited.Reachable := .perform (.start _ _ _) _
  obtain ⟨hrefused, hbatch⟩ := refused_without_trace hreach
  have hresult : (apply (Operation.create { id := "b", prefab := some "ghost" }) inhabited).value.1 =
      .error (.unknownPrefab "ghost") := by decide +kernel
  have hfits : ∀ op ∈ ghostOps, op.Fits := by decide +kernel
  have hdecode : (Batch.decode (Batch.encode ghostOps)).value = .ok (ghostOps.map Operation.wire) := by
    rw [Batch.decode_encode hfits]
  refine ⟨⟨_, Prod.ext hresult rfl, hrefused _ _ _ (Prod.ext hresult rfl)⟩, _, hdecode, ?_,
    hbatch _ _ hdecode⟩
  decide +kernel

end Ghost

end SceneLink.Host
