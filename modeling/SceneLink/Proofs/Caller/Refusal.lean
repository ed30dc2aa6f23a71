import SceneLink.Proofs.Caller.Moves
import SceneLink.Proofs.Operation.Issuer

namespace SceneLink.Caller

variable {H N : Type}

-- The state, up to the outbox, in which a request leaves the caller if it cannot be sent.
def restored (c : Caller H) : Request H → Caller H
  | .create template interests =>
    let d := c.tracking template interests
    { d with objects := d.objects.erase (c.objectIds.issue template.kind).1 }
  | .query _ _ handler | .queryPaths _ _ handler =>
    forget (c.callbackIds.issue "Callback").1 (c.registering (.once handler))
  | .destroy id => { c with objects := c.objects.setState id .pendingDestroy }
  | .updateInterests id changes => c.interesting id changes
  | _ => c

-- All that a plain request can come to: its response, or a failure of the transport in place of a reply
-- that says it was done. The outbox has taken in the same.
inductive Outcome (r : Response H) (left : Caller H) : Reply × Caller H → Prop
  | response : Outcome r left r.result
  | refused (e : TransportError) (outbox : Outbox)
      (hr : outbox = r.after.outbox ∧ ∃ answer, r.reply = .ok answer) :
      Outcome r left (.error (.transport e), left.setOutbox outbox)

section Outcome

variable {c : Caller H}

theorem send_cases (c : Caller H) (op : Operation) : (send op c).value = (.ok (), c.posted op) ∨
    ∃ e, (send op c).value = (.error (.transport e), c.posted op) := by
  have hvalue : (send op c).value =
      ((Outbox.send op c.outbox).value.1.mapError .transport, c.posted op) := by
    unfold send posted
    rw [Procedure.onPart_value, Procedure.mapError_value, Outbox.send_state]
  rw [hvalue]
  cases (Outbox.send op c.outbox).value.1 with
  | ok u => exact .inl rfl
  | error e => exact .inr ⟨e, rfl⟩

theorem sendOr_ok {undo : Caller H → Caller H} {op : Operation} {d : Caller H}
    (h : (send op c).value = (.ok (), d)) : (sendOr undo op c).value = (.ok (), d) := by
  unfold sendOr
  rw [Procedure.bind_value, Procedure.outcome_value, h]
  rfl

theorem sendOr_error {undo : Caller H → Caller H} {op : Operation} {d : Caller H} {e : CallerError}
    (h : (send op c).value = (.error e, d)) : (sendOr undo op c).value = (.error e, undo d) := by
  unfold sendOr
  rw [Procedure.bind_value, Procedure.outcome_value, h]
  rfl

-- A request on an object comes to more than its refusal only if the object is live.
theorem live_outcome {α : Type} {answer : α → Answer} {id : String} {action : Action H α}
    {r : Response H} {left : Caller H}
    (haction : Outcome r left ((answering answer action : Turn H N Reply) c).value) :
    Outcome (c.whenLive id r) left
      ((answering answer (requireLive id >>= fun _ => action) : Turn H N Reply) c).value := by
  rw [answering_value, Procedure.bind_value, requireLive_value]
  unfold whenLive
  cases c.objects.isLive id with
  | true => exact haction
  | false => exact .response

theorem sending_outcome (d : Caller H) (op : Operation) : Outcome ⟨.ok .unit, d, some op⟩ d
    ((answering (fun _ => .unit) (send op) : Turn H N Reply) d).value := by
  rw [answering_value]
  rcases send_cases d op with hsend | ⟨e, hsend⟩
  · rw [hsend]
    exact .response
  · rw [hsend]
    exact .refused e _ ⟨rfl, _, rfl⟩

-- A flush or a tick leaves the same outbox whether it fails or not.
theorem flushing_outcome (p : Procedure Outbox TransportError Unit) :
    Outcome ⟨.ok .unit, c.setOutbox (p c.outbox).value.2, none⟩ c ((answering (fun _ => .unit)
      ((p.mapError CallerError.transport).onPart (·.outbox) setOutbox) : Turn H N Reply) c).value := by
  rw [answering_value, Procedure.onPart_value, Procedure.mapError_value]
  cases (p c.outbox).value.1 with
  | ok u => exact .response
  | error e => exact .refused e _ ⟨rfl, _, rfl⟩

theorem create_outcome (template : Template) (interests : Dict String (Interest H)) :
    Outcome (c.respond (.create template interests)) (c.restored (.create template interests))
      ((answering .id (create template interests) : Turn H N Reply) c).value := by
  rw [answering_value]
  unfold create
  simp only [Procedure.bind_value, Procedure.get_value, Procedure.modify_value, Procedure.log_value,
    Procedure.pure_value]
  rcases send_cases (c.tracking template interests) (Operation.create
    (travelling template interests (c.objectIds.issue template.kind).1)) with hsend | ⟨e, hsend⟩
  · rw [sendOr_ok (by exact hsend)]
    exact .response
  · rw [sendOr_error (by exact hsend)]
    exact .refused e _ ⟨rfl, _, rfl⟩

theorem query_outcome (id : String) (paths : Dict String Path) (handler : H) :
    Outcome (c.questioning id paths handler)
      (forget (c.callbackIds.issue "Callback").1 (c.registering (.once handler)))
      ((answering .id (query id paths handler) : Turn H N Reply) c).value := by
  refine live_outcome ?_
  rw [answering_value]
  unfold register
  simp only [Procedure.bind_value, Procedure.get_value, Procedure.modify_value, Procedure.pure_value]
  rcases send_cases (c.registering (.once handler)) (Operation.query id
    { query := paths, callbackId := some (c.callbackIds.issue "Callback").1 }) with hsend | ⟨e, hsend⟩
  · rw [sendOr_ok (by exact hsend)]
    exact .response
  · rw [sendOr_error (by exact hsend)]
    exact .refused e _ ⟨rfl, _, rfl⟩

theorem queryPaths_outcome (id : String) (pairs : List (String × String)) (handler : H) :
    Outcome (c.respond (.queryPaths id pairs handler)) (c.restored (.queryPaths id pairs handler))
      ((answering .id (queryPaths id pairs handler) : Turn H N Reply) c).value := by
  rw [answering_value, respond_queryPaths]
  unfold queryPaths
  rw [Procedure.bind_value, Procedure.ofExcept_value]
  cases InterestSpec.ofPaths pairs with
  | ok spec => exact query_outcome (N := N) id spec.query handler
  | error e => exact .response

theorem destroy_outcome (id : String) :
    Outcome (c.respond (.destroy id)) (c.restored (.destroy id))
      ((answering (fun _ => .unit) (destroy id) : Turn H N Reply) c).value := by
  refine live_outcome ?_
  rw [answering_value]
  simp only [Procedure.bind_value, Procedure.modify_value, Procedure.log_value]
  rcases send_cases { c with objects := c.objects.setState id .pendingDestroy }
    (Operation.destroy id) with hsend | ⟨e, hsend⟩
  · rw [hsend]
    exact .response
  · rw [hsend]
    exact .refused e _ ⟨rfl, _, rfl⟩

theorem perform_outcome (run : Runner H N) {request : Request H} (hplain : request.IsPlain)
    (c : Caller H) : Outcome (c.respond request) (c.restored request) (perform run request c).value := by
  cases request with
  | create template interests => exact create_outcome template interests
  | update id assignments => exact live_outcome (sending_outcome c _)
  | query id paths handler => exact query_outcome id paths handler
  | queryPaths id pairs handler => exact queryPaths_outcome id pairs handler
  | animate id animations => exact live_outcome (sending_outcome c _)
  | destroy id => exact destroy_outcome id
  | updateInterests id changes =>
      exact live_outcome (sending_outcome (N := N) (c.interesting id changes) _)
  | setGlobals globals => exact sending_outcome c _
  | log line => exact sending_outcome c _
  | register continuation => exact .response
  | clear id => exact .response
  | tick =>
      have houtbox : c.setOutbox c.outbox.ticked = c.setOutbox (Outbox.tick c.outbox).value.2 := by
        rw [Outbox.tick_state]
      change Outcome ⟨.ok .unit, c.setOutbox c.outbox.ticked, none⟩ c _
      rw [houtbox]
      exact flushing_outcome Outbox.tick
  | flush => exact flushing_outcome Outbox.flush
  | receive => exact hplain.elim
  | distribute => exact hplain.elim
  | rewire => exact hplain.elim

end Outcome

-- No identifier that is still to be issued is in a table.
structure Fresh (c : Caller H) : Prop where
  objects : ∀ kind n, c.objectIds.issued ≤ n → c.objects.get? (Issuer.idFor kind n) = none
  callbacks : ∀ kind n, c.callbackIds.issued ≤ n → c.callbacks.get? (Issuer.idFor kind n) = none

section Fresh

variable {c : Caller H}

theorem get?_insert_issued {α : Type} {d : Dict String α} {issuer : Issuer} {kind : String}
    (h : ∀ kind n, issuer.issued ≤ n → d.get? (Issuer.idFor kind n) = none) (value : α) (other : String)
    (n : Nat) (hn : issuer.issued + 1 ≤ n) :
    (d.insert (issuer.issue kind).1 value).get? (Issuer.idFor other n) = none := by
  have hne : Issuer.idFor other n ≠ (issuer.issue kind).1 := by
    intro heq
    have := Issuer.idFor_injective heq
    omega
  rw [Dict.get?_insert, if_neg hne]
  exact h other n (by omega)

theorem get?_erase_none {α : Type} {d : Dict String α} {id : String} (h : d.get? id = none)
    (key : String) : (d.erase key).get? id = none := by
  rw [Dict.get?_erase]
  split
  · rfl
  · exact h

theorem Fresh.tracking (hc : c.Fresh) (template : Template) (interests : Dict String (Interest H)) :
    (c.tracking template interests).Fresh :=
  ⟨get?_insert_issued hc.objects _, hc.callbacks⟩

theorem Fresh.registering (hc : c.Fresh) (continuation : Continuation H) :
    (c.registering continuation).Fresh :=
  ⟨hc.objects, get?_insert_issued hc.callbacks _⟩

theorem Fresh.forget (hc : c.Fresh) (callbackId : String) : (forget callbackId c).Fresh :=
  ⟨hc.objects, fun kind n hn => get?_erase_none (hc.callbacks kind n hn) callbackId⟩

theorem Fresh.take (hc : c.Fresh) (callbackId : String) :
    ({ c with callbacks := (c.callbacks.take callbackId).2 } : Caller H).Fresh := by
  refine ⟨hc.objects, fun kind n hn => ?_⟩
  unfold CallbackTable.take
  split
  · exact hc.callbacks kind n hn
  · exact get?_erase_none (hc.callbacks kind n hn) callbackId

theorem Fresh.untrack (hc : c.Fresh) (id : String) :
    ({ c with objects := c.objects.erase id } : Caller H).Fresh :=
  ⟨fun kind n hn => get?_erase_none (hc.objects kind n hn) id, hc.callbacks⟩

theorem Fresh.setState (hc : c.Fresh) (id : String) (state : Lifecycle) :
    ({ c with objects := c.objects.setState id state } : Caller H).Fresh := by
  refine ⟨fun kind n hn => ?_, hc.callbacks⟩
  have hnone := hc.objects kind n hn
  rw [ObjectTable.get?_setState]
  split
  · next heq =>
    rw [← heq, hnone]
    rfl
  · exact hnone

theorem Fresh.interesting (hc : c.Fresh) (id : String) (changes : HandlerChanges H) :
    (c.interesting id changes).Fresh := by
  unfold Caller.interesting
  split
  · next object hget =>
    refine ⟨fun kind n hn => ?_, hc.callbacks⟩
    have hnone := hc.objects kind n hn
    rw [ObjectTable.get?_setInterests]
    split
    · next heq =>
      rw [← heq, hnone]
      rfl
    · exact hnone
  · exact hc

theorem Fresh.setOutbox (hc : c.Fresh) (outbox : Outbox) : (c.setOutbox outbox).Fresh :=
  ⟨hc.objects, hc.callbacks⟩

theorem Fresh.after {r : Response H} (h : r.caller.Fresh) : r.after.Fresh := by
  obtain ⟨outbox, hafter⟩ := after_eq r
  exact hafter ▸ h.setOutbox outbox

theorem Fresh.respond (hc : c.Fresh) (request : Request H) : (c.respond request).after.Fresh := by
  refine Fresh.after ?_
  cases request with
  | create template interests => exact hc.tracking template interests
  | query id paths handler => exact whenLive_caller hc (hc.registering _)
  | queryPaths id pairs handler =>
      rw [respond_queryPaths]
      split
      · exact whenLive_caller hc (hc.registering _)
      · exact hc
  | destroy id => exact whenLive_caller hc (hc.setState id _)
  | updateInterests id changes => exact whenLive_caller hc (hc.interesting id changes)
  | register continuation => exact hc.registering continuation
  | clear id => exact hc.forget id
  | update | animate => exact whenLive_caller hc hc
  | tick | flush => exact hc.setOutbox _
  | _ => exact hc

theorem Fresh.restored (hc : c.Fresh) (request : Request H) : (c.restored request).Fresh := by
  cases request with
  | create template interests => exact (hc.tracking template interests).untrack _
  | query | queryPaths => exact (hc.registering _).forget _
  | destroy id => exact hc.setState id _
  | updateInterests id changes => exact hc.interesting id changes
  | _ => exact hc

theorem fresh_stable : Stable (Fresh (H := H)) := by
  intro c d hmove hc
  cases hmove with
  | ask request hplain =>
      have houtcome := perform_outcome idle hplain c
      revert houtcome
      generalize (perform idle request c).value = out
      intro houtcome
      cases houtcome with
      | response => exact hc.respond request
      | refused e outbox => exact (hc.restored request).setOutbox outbox
  | rewire transport => exact hc.setOutbox _
  | collect => exact hc.setOutbox _
  | onset op =>
      exact onset_cases c op (fun _ => hc.setOutbox _) (fun id _ _ => hc.take id)
        (fun id _ _ => hc.setState id _) hc
  | close op =>
      unfold close
      split
      · exact hc.untrack _
      · exact hc

theorem Reachable.fresh (hc : c.Reachable) : c.Fresh := by
  induction hc with
  | start settings transport => exact ⟨fun _ _ _ => rfl, fun _ _ _ => rfl⟩
  | move hc hmove ih => exact fresh_stable hmove ih

end Fresh

-- The table of objects after a request that was refused for the reason given.
def objectsLeft (c : Caller H) : Request H → CallerError → ObjectTable H
  | .destroy id, .transport _ => c.objects.setState id .pendingDestroy
  | .updateInterests id changes, .transport _ => (c.interesting id changes).objects
  | _, _ => c.objects

section Refused

variable {c : Caller H}

theorem whenLive_error {id : String} {r : Response H} {a : Answer} {e : CallerError}
    (hr : r.reply = .ok a) (h : (c.whenLive id r).reply = .error e) :
    (c.whenLive id r).after = c ∧ e = .unknownObject id := by
  unfold whenLive at h ⊢
  split at h
  · rw [hr] at h
    cases h
  · next hlive =>
    rw [if_neg hlive]
    cases h
    exact ⟨rfl, rfl⟩

theorem respond_error {request : Request H} {e : CallerError}
    (h : (c.respond request).reply = .error e) :
    (c.respond request).after = c ∧ ∀ cause, e ≠ .transport cause := by
  have hlive {id : String} {r : Response H} {a : Answer} (hr : r.reply = .ok a)
      (h : (c.whenLive id r).reply = .error e) :
      (c.whenLive id r).after = c ∧ ∀ cause, e ≠ .transport cause := by
    obtain ⟨hafter, rfl⟩ := whenLive_error hr h
    exact ⟨hafter, fun _ he => nomatch he⟩
  cases request with
  | update id assignments => exact hlive rfl h
  | query id paths handler => exact hlive rfl h
  | queryPaths id pairs handler =>
      rw [respond_queryPaths] at h ⊢
      split at h
      · exact hlive rfl h
      · cases h
        exact ⟨rfl, fun _ he => nomatch he⟩
  | animate id animations => exact hlive rfl h
  | destroy id => exact hlive rfl h
  | updateInterests id changes => exact hlive rfl h
  | _ => cases h

theorem Fresh.restored_callbacks (hc : c.Fresh) (request : Request H) :
    (c.restored request).callbacks = c.callbacks := by
  cases request with
  | query | queryPaths =>
      exact Dict.erase_insert_of_get?_eq_none (hc.callbacks _ _ (Nat.le_refl _)) _
  | updateInterests id changes =>
      change (c.interesting id changes).callbacks = _
      unfold Caller.interesting
      split <;> rfl
  | _ => rfl

theorem Fresh.restored_objects (hc : c.Fresh) (request : Request H) (cause : TransportError) :
    (c.restored request).objects = c.objectsLeft request (.transport cause) := by
  cases request with
  | create template interests =>
      exact Dict.erase_insert_of_get?_eq_none (hc.objects _ _ (Nat.le_refl _)) _
  | _ => rfl

-- A refused request leaves the table of continuations as it was, and so the table of objects, but
-- for two requests that the transport refuses: an object to be destroyed keeps the mark that it is,
-- and changed interests stay changed.
theorem tables_after_refusal (hc : c.Reachable) (run : Runner H N) {request : Request H}
    {e : CallerError} {k : Caller H} (h : (perform run request c).value = (.error e, k)) :
    k.callbacks = c.callbacks ∧ k.objects = c.objectsLeft request e := by
  by_cases hplain : request.IsPlain
  · have houtcome := perform_outcome run hplain c
    rw [h] at houtcome
    generalize hout : ((.error e, k) : Reply × Caller H) = out at houtcome
    cases houtcome with
    | response =>
        obtain ⟨hreply, hafter⟩ := Prod.mk.inj hout
        obtain ⟨hsame, hcause⟩ := respond_error hreply.symm
        rw [hafter, hsame]
        refine ⟨rfl, ?_⟩
        unfold objectsLeft
        split
        · exact (hcause _ rfl).elim
        · exact (hcause _ rfl).elim
        · rfl
    | refused cause outbox =>
        obtain ⟨hreply, rfl⟩ := Prod.mk.inj hout
        cases hreply
        exact ⟨hc.fresh.restored_callbacks request, hc.fresh.restored_objects request cause⟩
  · cases request with
    | receive | distribute | rewire => cases congrArg Prod.fst h
    | _ => exact (hplain trivial).elim

end Refused

-- An object whose transport is closed after it was asked for.
section Stranded

def stranded : Caller Unit :=
  let c : Caller Unit := (perform idle (.create {} []) (start {} {})).value.2
  c.setOutbox (c.outbox.setTransport { fault := some "closed" })

def severed : CallerError := .transport ⟨"closed"⟩

def ticking : HandlerChanges Unit := [("Tick", some ⟨{}, ()⟩)]

theorem stranded_reachable : stranded.Reachable := by
  have hcreate : Request.IsPlain (.create {} [] : Request Unit) := trivial
  exact .move (.move (.start {} {}) (.ask _ _ hcreate)) (.rewire _ _)

theorem error_of_refusal? {reply : Reply} {e : CallerError}
    (h : (match reply with
      | .error e => some e
      | .ok _ => none) = some e) : reply = .error e := by
  cases reply with
  | ok answer => cases h
  | error other => rw [Option.some.inj h]

theorem stranded_refuses :
    (perform idle (.destroy "Object_0") stranded).value.1 = .error severed ∧
      (perform idle (.updateInterests "Object_0" ticking) stranded).value.1 = .error severed :=
  ⟨error_of_refusal? (by decide +kernel), error_of_refusal? (by decide +kernel)⟩

theorem tables_after_refusal_stranded : ∃ k, stranded.Reachable ∧
    (perform idle (.destroy "Object_0") stranded).value = (.error severed, k) ∧
    k.callbacks = stranded.callbacks ∧
    k.objects = stranded.objectsLeft (.destroy "Object_0") severed :=
  have hrefused : (perform idle (.destroy "Object_0") stranded).value = (.error severed, _) :=
    Prod.ext stranded_refuses.1 rfl
  ⟨_, stranded_reachable, hrefused, tables_after_refusal stranded_reachable idle hrefused⟩

-- Neither of the two requests could be made again from the state that it was made in.
theorem tables_changed_by_refusal : ∃ c : Caller Unit, c.Reachable ∧
    (∃ id e k, (perform idle (.destroy id) c).value = (.error e, k) ∧
      k.objects.stateOf? id ≠ c.objects.stateOf? id) ∧
    ∃ id changes e k, (perform idle (.updateInterests id changes) c).value = (.error e, k) ∧
      k.objects.interestsOf? id ≠ c.objects.interestsOf? id := by
  obtain ⟨hdestroy, hinterests⟩ := stranded_refuses
  refine ⟨stranded, stranded_reachable, ⟨"Object_0", severed, _, Prod.ext hdestroy rfl, ?_⟩,
    "Object_0", ticking, severed, _, Prod.ext hinterests rfl, ?_⟩
  · decide +kernel
  · intro hsame
    have hkeys := congrArg (Option.map Dict.keys) hsame
    revert hkeys
    decide +kernel

end Stranded

end SceneLink.Caller
