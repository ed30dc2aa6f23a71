import SceneLink.Caller.Reaction
import SceneLink.Proofs.Link.Outbox
import SceneLink.Proofs.Link.Procedure

namespace SceneLink

-- A request that runs no handler and leaves the transport alone.
def Request.IsPlain {H : Type} : Request H → Prop
  | .receive _ | .distribute _ | .rewire _ => False
  | _ => True

structure Asked (H : Type) where
  request : Request H
  reply : Reply

namespace Caller

variable {H N : Type}

def posted (c : Caller H) (op : Operation) : Caller H := c.setOutbox (c.outbox.posted op)

-- The caller before anything is sent, and what is sent.
structure Response (H : Type) where
  reply : Reply
  caller : Caller H
  sent : Option Operation

def Response.after (r : Response H) : Caller H :=
  match r.sent with
  | some op => r.caller.posted op
  | none => r.caller

-- A request on an object that is not live is refused.
def whenLive (c : Caller H) (id : String) (r : Response H) : Response H :=
  if c.objects.isLive id then r else ⟨.error (.unknownObject id), c, none⟩

theorem whenLive_caller {p : Caller H → Prop} {c : Caller H} {id : String} {r : Response H} (hc : p c)
    (hr : p r.caller) : p (c.whenLive id r).caller := by
  unfold whenLive
  split
  · exact hr
  · exact hc

-- The template that travels: with the identifier, and with the specifications of the interests.
def travelling (template : Template) (interests : Dict String (Interest H)) (id : String) : Template :=
  { template with id, interests := template.interests.insertAll (specs interests) }

def tracking (c : Caller H) (template : Template) (interests : Dict String (Interest H)) : Caller H :=
  { c with
    objectIds := (c.objectIds.issue template.kind).2
    objects := c.objects.insert (c.objectIds.issue template.kind).1
      { kind := template.kind, interests } }

def registering (c : Caller H) (continuation : Continuation H) : Caller H :=
  { c with
    callbackIds := (c.callbackIds.issue "Callback").2
    callbacks := c.callbacks.insert (c.callbackIds.issue "Callback").1 continuation }

def questioning (c : Caller H) (id : String) (paths : Dict String Path) (handler : H) : Response H :=
  let callbackId := (c.callbackIds.issue "Callback").1
  c.whenLive id ⟨.ok (.id callbackId), c.registering (.once handler),
    some (Operation.query id { query := paths, callbackId := some callbackId })⟩

def interesting (c : Caller H) (id : String) (changes : HandlerChanges H) : Caller H :=
  match c.objects.get? id with
  | some object =>
    { c with objects :=
        c.objects.setInterests id (changes.foldl changeInterest object.interests) }
  | none => c

def respond (c : Caller H) : Request H → Response H
  | .create template interests =>
    let id := (c.objectIds.issue template.kind).1
    ⟨.ok (.id id), c.tracking template interests,
      some (Operation.create (travelling template interests id))⟩
  | .update id assignments => c.whenLive id ⟨.ok .unit, c, some (Operation.update id assignments)⟩
  | .query id paths handler => c.questioning id paths handler
  | .queryPaths id pairs handler => match InterestSpec.ofPaths pairs with
    | .ok spec => c.questioning id spec.query handler
    | .error e => ⟨.error (.path e), c, none⟩
  | .animate id animations => c.whenLive id ⟨.ok .unit, c, some (Operation.animate id animations)⟩
  | .destroy id => c.whenLive id
      ⟨.ok .unit, { c with objects := c.objects.setState id .pendingDestroy },
        some (Operation.destroy id)⟩
  | .updateInterests id changes => c.whenLive id
      ⟨.ok .unit, c.interesting id changes,
        some (Operation.updateInterests id (changes.mapValues fun change => change.map (·.spec)))⟩
  | .setGlobals globals => ⟨.ok .unit, c, some (Operation.setGlobals globals)⟩
  | .log line => ⟨.ok .unit, c, some (Operation.log line)⟩
  | .register continuation =>
    ⟨.ok (.id (c.callbackIds.issue "Callback").1), c.registering continuation, none⟩
  | .clear id => ⟨.ok (.flag (c.callbacks.contains id)), forget id c, none⟩
  | .tick => ⟨.ok .unit, c.setOutbox c.outbox.ticked, none⟩
  | .flush => ⟨.ok .unit, c.setOutbox c.outbox.flushed, none⟩
  | _ => ⟨.ok .unit, c, none⟩

theorem respond_queryPaths (c : Caller H) (id : String) (pairs : List (String × String)) (handler : H) :
    c.respond (.queryPaths id pairs handler) = match InterestSpec.ofPaths pairs with
      | .ok spec => c.questioning id spec.query handler
      | .error e => ⟨.error (.path e), c, none⟩ := rfl

section Values

variable {c : Caller H}

def Response.result (r : Response H) : Reply × Caller H := (r.reply, r.after)

theorem answering_value {α : Type} (answer : α → Answer) (action : Action H α) :
    ((answering answer action : Turn H N Reply) c).value =
      ((action c).value.1.map answer, (action c).value.2) := rfl

theorem send_value (h : c.outbox.Lossless) (op : Operation) :
    (send op c).value = (.ok (), c.posted op) := by
  unfold send
  rw [Procedure.onPart_value, Procedure.mapError_value, Outbox.send_value h]
  rfl

theorem sendOr_value (h : c.outbox.Lossless) (undo : Caller H → Caller H) (op : Operation) :
    (sendOr undo op c).value = (.ok (), c.posted op) := by
  unfold sendOr
  rw [Procedure.bind_value, Procedure.outcome_value, send_value h]
  rfl

theorem requireLive_value (id : String) :
    ((requireLive id : Action H Unit) c).value =
      (if c.objects.isLive id then .ok () else .error (.unknownObject id), c) := by
  unfold requireLive
  rw [Procedure.bind_value, Procedure.get_value]
  dsimp only
  cases c.objects.isLive id <;> rfl

-- The checked part of a request runs only if the object is live.
theorem whenLive_value {α : Type} {answer : α → Answer} {id : String} {action : Action H α}
    {r : Response H}
    (haction : ((answering answer action : Turn H N Reply) c).value = r.result) :
    ((answering answer (requireLive id >>= fun _ => action) : Turn H N Reply) c).value =
      (c.whenLive id r).result := by
  rw [answering_value, Procedure.bind_value, requireLive_value]
  unfold whenLive
  cases c.objects.isLive id with
  | true => exact haction
  | false => rfl

theorem create_value (h : c.outbox.Lossless) (template : Template)
    (interests : Dict String (Interest H)) :
    ((answering .id (create template interests) : Turn H N Reply) c).value =
      (c.respond (.create template interests)).result := by
  rw [answering_value]
  unfold create
  simp only [Procedure.bind_value, Procedure.get_value, Procedure.modify_value,
    Procedure.log_value, Procedure.pure_value]
  rw [sendOr_value (by exact h)]
  rfl

theorem query_value (h : c.outbox.Lossless) (id : String) (paths : Dict String Path) (handler : H) :
    ((answering .id (query id paths handler) : Turn H N Reply) c).value =
      (c.questioning id paths handler).result := by
  apply whenLive_value
  rw [answering_value]
  unfold register
  simp only [Procedure.bind_value, Procedure.get_value, Procedure.modify_value,
    Procedure.pure_value]
  rw [sendOr_value (by exact h)]
  rfl

theorem queryPaths_value (h : c.outbox.Lossless) (id : String) (pairs : List (String × String))
    (handler : H) :
    ((answering .id (queryPaths id pairs handler) : Turn H N Reply) c).value =
      (c.respond (.queryPaths id pairs handler)).result := by
  have hvalue : (queryPaths id pairs handler c).value =
      match (InterestSpec.ofPaths pairs).mapError CallerError.path with
      | .ok spec => (query id spec.query handler c).value
      | .error e => (.error e, c) := by
    unfold queryPaths
    rw [Procedure.bind_value, Procedure.ofExcept_value]
    cases (InterestSpec.ofPaths pairs).mapError CallerError.path <;> rfl
  rw [answering_value, hvalue, respond_queryPaths]
  cases InterestSpec.ofPaths pairs with
  | ok spec => exact query_value (N := N) h id spec.query handler
  | error e => rfl

theorem perform_value (h : c.outbox.Lossless) (run : Runner H N) {request : Request H}
    (hplain : request.IsPlain) :
    (perform run request c).value = (c.respond request).result := by
  cases request with
  | create template interests => exact create_value h template interests
  | update id assignments =>
      refine whenLive_value ?_
      rw [answering_value, send_value h]
      rfl
  | query id paths handler => exact query_value h id paths handler
  | queryPaths id pairs handler => exact queryPaths_value h id pairs handler
  | animate id animations =>
      refine whenLive_value ?_
      rw [answering_value, send_value h]
      rfl
  | destroy id =>
      refine whenLive_value ?_
      rw [answering_value]
      simp only [Procedure.bind_value, Procedure.modify_value, Procedure.log_value]
      rw [send_value (by exact h)]
      rfl
  | updateInterests id changes =>
      have hkeep : (c.interesting id changes).outbox = c.outbox := by
        unfold interesting
        split <;> rfl
      refine whenLive_value ?_
      rw [answering_value, Procedure.bind_value, Procedure.modify_value]
      change (Except.map _ (send _ (c.interesting id changes)).value.1,
        (send _ (c.interesting id changes)).value.2) = _
      rw [send_value (hkeep ▸ h)]
      rfl
  | setGlobals globals =>
      change ((answering _ (send _) : Turn H N Reply) c).value = _
      rw [answering_value, send_value h]
      rfl
  | log line =>
      change ((answering _ (send _) : Turn H N Reply) c).value = _
      rw [answering_value, send_value h]
      rfl
  | register continuation => rfl
  | clear id => rfl
  | tick =>
      change ((answering _ tick : Turn H N Reply) c).value = _
      rw [answering_value]
      unfold tick
      rw [Procedure.onPart_value, Procedure.mapError_value, Outbox.tick_value h]
      rfl
  | flush =>
      change ((answering _ flush : Turn H N Reply) c).value = _
      rw [answering_value]
      unfold flush
      rw [Procedure.onPart_value, Procedure.mapError_value, Outbox.flush_value h]
      rfl
  | receive => exact hplain.elim
  | distribute => exact hplain.elim
  | rewire => exact hplain.elim

end Values

end Caller

end SceneLink
