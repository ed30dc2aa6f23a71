import SceneLink.Proofs.Caller.Tables
import SceneLink.Proofs.Operation.Issuer

namespace SceneLink

structure Question (H : Type) where
  id : String
  paths : Dict String Path
  handler : H
  callbackId : String

variable {H : Type}

def Question.operation (q : Question H) : Operation :=
  Operation.query q.id { query := q.paths, callbackId := some q.callbackId }

namespace Asked

def question? (a : Asked H) : Option (Question H) :=
  match a.request, a.reply with
  | .query id paths handler, .ok (.id callbackId) => some { id, paths, handler, callbackId }
  | .queryPaths id pairs handler, .ok (.id callbackId) => match InterestSpec.ofPaths pairs with
    | .ok spec => some { id, paths := spec.query, handler, callbackId }
    | .error _ => none
  | _, _ => none

-- The operation that the caller sent for a request.
def sent (a : Asked H) : Option Operation :=
  match a.request, a.reply with
  | .create template interests, .ok (.id id) =>
    some (Operation.create (Caller.travelling template interests id))
  | .update id assignments, .ok _ => some (Operation.update id assignments)
  | .animate id animations, .ok _ => some (Operation.animate id animations)
  | .destroy id, .ok _ => some (Operation.destroy id)
  | .updateInterests id changes, .ok _ =>
    some (Operation.updateInterests id (changes.mapValues fun change => change.map (·.spec)))
  | .setGlobals globals, .ok _ => some (Operation.setGlobals globals)
  | .log line, .ok _ => some (Operation.log line)
  | _, _ => a.question?.map Question.operation

-- The continuations that are to run when the tweens of an accepted animation end.
def names (a : Asked H) : List String :=
  match a.request, a.reply with
  | .animate _ animations, .ok _ => animations.filterMap (·.callbackId)
  | _, _ => []

theorem sent_of_question {a : Asked H} {q : Question H} (h : a.question? = some q) :
    a.sent = some q.operation := by
  have hsent : a.sent = a.question?.map Question.operation := by
    obtain ⟨request, reply⟩ := a
    cases request with
    | query => rfl
    | queryPaths => rfl
    | _ => cases h
  rw [hsent, h]
  rfl

theorem sent_cases {a : Asked H} {op : Operation} (h : a.sent = some op) :
    (∃ q, a.question? = some q ∧ op = q.operation) ∨
      (∃ id animations, op = Operation.animate id animations ∧
        a.names = animations.filterMap (·.callbackId)) ∨
      op.event ≠ .query ∧ op.event ≠ .animate ∧ op.event.Settled := by
  obtain ⟨request, reply⟩ := a
  have hother : ∀ {o : Operation}, some o = some op → ∀ event, o.event = event → event ≠ .query →
      event ≠ .animate → event.Settled → op.event ≠ .query ∧ op.event ≠ .animate ∧ op.event.Settled := by
    intro o ho event hevent hquery hanimate hsettled
    rw [← Option.some.inj ho, hevent]
    exact ⟨hquery, hanimate, hsettled⟩
  unfold sent at h
  split at h
  · exact .inr (.inr (hother h .create rfl (by decide) (by decide) rfl))
  · exact .inr (.inr (hother h .update rfl (by decide) (by decide) rfl))
  · next id animations answer hrequest hreply =>
    refine .inr (.inl ⟨id, animations, (Option.some.inj h).symm, ?_⟩)
    dsimp only at hrequest hreply
    rw [hrequest, hreply]
    rfl
  · exact .inr (.inr (hother h .destroy rfl (by decide) (by decide) rfl))
  · exact .inr (.inr (hother h .updateInterests rfl (by decide) (by decide) rfl))
  · exact .inr (.inr (hother h .setGlobals rfl (by decide) (by decide) rfl))
  · exact .inr (.inr (hother h .log rfl (by decide) (by decide) rfl))
  · obtain ⟨q, hq, rfl⟩ := Option.map_eq_some_iff.1 h
    exact .inl ⟨q, hq, rfl⟩

end Asked

namespace Caller

variable {c : Caller H} {request : Request H}

section Requests

private theorem sent_whenLive_eq {id : String} {r : Response H}
    (hrefused : Asked.sent ⟨request, .error (.unknownObject id)⟩ = none)
    (hr : r.sent = Asked.sent ⟨request, r.reply⟩) :
    (c.whenLive id r).sent = Asked.sent ⟨request, (c.whenLive id r).reply⟩ := by
  unfold whenLive
  split
  · exact hr
  · exact hrefused.symm

-- What is sent can be told from the reply.
theorem sent_respond (c : Caller H) (request : Request H) :
    (c.respond request).sent = Asked.sent ⟨request, (c.respond request).reply⟩ := by
  cases request with
  | update id assignments => exact sent_whenLive_eq rfl rfl
  | query id paths handler => exact sent_whenLive_eq rfl rfl
  | queryPaths id pairs handler =>
      rw [respond_queryPaths]
      cases hspec : InterestSpec.ofPaths pairs with
      | error e => rfl
      | ok spec =>
          refine sent_whenLive_eq rfl ?_
          simp only [Asked.sent, Asked.question?, hspec]
          rfl
  | animate id animations => exact sent_whenLive_eq rfl rfl
  | destroy id => exact sent_whenLive_eq rfl rfl
  | updateInterests id changes => exact sent_whenLive_eq rfl rfl
  | _ => rfl

theorem after_callbacks (r : Response H) : r.after.callbacks = r.caller.callbacks := by
  obtain ⟨outbox, h⟩ := after_eq r
  rw [h]

theorem after_callbackIds (r : Response H) : r.after.callbackIds = r.caller.callbackIds := by
  obtain ⟨outbox, h⟩ := after_eq r
  rw [h]

inductive Filed (c : Caller H) (request : Request H) (d : Caller H) : Prop
  | kept (hcallbacks : d.callbacks = c.callbacks) (hids : d.callbackIds = c.callbackIds)
  | registered (continuation : Continuation H)
      (hcallbacks : d.callbacks =
        c.callbacks.insert (c.callbackIds.issue "Callback").1 continuation)
      (hids : d.callbackIds = (c.callbackIds.issue "Callback").2)
  | cleared (id : String) (hrequest : request = .clear id)
      (hcallbacks : d.callbacks = c.callbacks.erase id) (hids : d.callbackIds = c.callbackIds)

private theorem filed_whenLive {id : String} {r : Response H} (h : Filed c request r.caller) :
    Filed c request (c.whenLive id r).caller :=
  whenLive_caller (p := Filed c request) (.kept rfl rfl) h

private theorem filed_after {r : Response H} (h : Filed c request r.caller) : Filed c request r.after := by
  obtain ⟨outbox, hafter⟩ := after_eq r
  rw [hafter]
  cases h with
  | kept hcallbacks hids => exact .kept hcallbacks hids
  | registered continuation hcallbacks hids => exact .registered continuation hcallbacks hids
  | cleared id hrequest hcallbacks hids => exact .cleared id hrequest hcallbacks hids

theorem filed_respond (c : Caller H) (request : Request H) :
    Filed c request (c.respond request).after := by
  apply filed_after
  cases request with
  | query id paths handler => exact filed_whenLive (.registered (.once handler) rfl rfl)
  | queryPaths id pairs handler =>
      rw [respond_queryPaths]
      split
      · exact filed_whenLive (.registered (.once handler) rfl rfl)
      · exact .kept rfl rfl
  | update id assignments => exact filed_whenLive (.kept rfl rfl)
  | animate id animations => exact filed_whenLive (.kept rfl rfl)
  | destroy id => exact filed_whenLive (.kept rfl rfl)
  | updateInterests id changes =>
      apply filed_whenLive
      dsimp only
      unfold interesting
      split <;> exact .kept rfl rfl
  | register continuation => exact .registered continuation rfl rfl
  | clear id => exact .cleared id rfl rfl rfl
  | _ => exact .kept rfl rfl

theorem callbacks_respond {name : String} (hclear : request ≠ .clear name)
    (hissue : (c.callbackIds.issue "Callback").1 ≠ name) :
    (c.respond request).after.callbacks.get? name = c.callbacks.get? name := by
  cases c.filed_respond request with
  | kept hcallbacks => rw [hcallbacks]
  | registered continuation hcallbacks =>
      rw [hcallbacks, Dict.get?_insert, if_neg (Ne.symm hissue)]
  | cleared id hrequest hcallbacks =>
      have hne : name ≠ id := by
        rintro rfl
        exact hclear hrequest
      rw [hcallbacks, Dict.get?_erase, if_neg hne]

theorem issued_respond (c : Caller H) (request : Request H) :
    c.callbackIds.issued ≤ (c.respond request).after.callbackIds.issued := by
  cases c.filed_respond request with
  | kept _ hids => rw [hids]
  | registered _ _ hids =>
      rw [hids]
      exact Nat.le_succ _
  | cleared _ _ _ hids => rw [hids]

structure Questioned (c : Caller H) (q : Question H) (d : Caller H) : Prop where
  live : c.objects.isLive q.id = true
  callbackId : q.callbackId = Issuer.idFor "Callback" c.callbackIds.issued
  issued : d.callbackIds.issued = c.callbackIds.issued + 1
  waiting : d.callbacks.get? q.callbackId = some (.once q.handler)

theorem questioned {id : String} {paths : Dict String Path} {handler : H} {callbackId : String}
    (h : (c.questioning id paths handler).reply = .ok (.id callbackId)) :
    Questioned c { id, paths, handler, callbackId } (c.questioning id paths handler).after := by
  unfold questioning whenLive at h ⊢
  dsimp only at h ⊢
  split at h
  · next hlive =>
    rw [if_pos hlive]
    injection h with h
    injection h with h
    refine ⟨hlive, h.symm, ?_, ?_⟩
    · rw [after_callbackIds]
      rfl
    · rw [after_callbacks]
      exact (Dict.get?_insert _ _ _ _).trans (if_pos h.symm)
  · cases h

theorem questioned_respond {q : Question H}
    (h : Asked.question? ⟨request, (c.respond request).reply⟩ = some q) :
    Questioned c q (c.respond request).after := by
  unfold Asked.question? at h
  dsimp only at h
  split at h
  · next hreply =>
    rw [← Option.some.inj h]
    exact questioned hreply
  · next pairs handler _ hreply =>
    cases hspec : InterestSpec.ofPaths pairs with
    | error e => rw [hspec] at h; cases h
    | ok spec =>
        rw [hspec] at h
        rw [← Option.some.inj h]
        rw [respond_queryPaths, hspec] at hreply ⊢
        exact questioned hreply
  · cases h

end Requests

section Hearing

variable {op : Operation} {name : String}

theorem onset_callbackIds (c : Caller H) (op : Operation) : (c.onset op).callbackIds = c.callbackIds :=
  onset_cases c op (fun _ => rfl) (fun _ _ _ => rfl) (fun _ _ _ => rfl) rfl

theorem close_callbacks (c : Caller H) (op : Operation) :
    (c.close op).callbacks = c.callbacks ∧ (c.close op).callbackIds = c.callbackIds := by
  unfold close
  split <;> exact ⟨rfl, rfl⟩

theorem get?_take (callbacks : CallbackTable H) (id name : String) (h : name ≠ id) :
    (callbacks.take id).2.get? name = callbacks.get? name := by
  unfold CallbackTable.take
  split
  · rfl
  · exact (Dict.get?_erase _ _ _).trans (if_neg h)

-- An answer to another question leaves the continuation where it is.
theorem callbacks_onset (h : op.event = .callback → op.id ≠ some name) :
    (c.onset op).callbacks.get? name = c.callbacks.get? name := by
  refine onset_cases c op (fun _ => rfl) (fun id hevent hid => ?_) (fun _ _ _ => rfl) rfl
  refine get?_take _ _ _ fun heq => h hevent ?_
  rw [hid, heq]

theorem answered_once {handler : H} (hevent : op.event = .callback) (hid : op.id = some name)
    (hget : c.callbacks.get? name = some (.once handler)) :
    c.answered op = [(handler, .answer (op.data.getD .null))] ∧
      (c.onset op).callbacks.get? name = none := by
  unfold answered onset
  rw [hevent, hid]
  dsimp only
  unfold CallbackTable.take
  rw [hget]
  exact ⟨rfl, (Dict.get?_erase _ _ _).trans (if_pos rfl)⟩

end Hearing

end Caller

end SceneLink
