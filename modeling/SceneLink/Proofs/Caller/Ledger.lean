import SceneLink.Proofs.Caller.Course
import SceneLink.Proofs.Caller.Refusal

namespace SceneLink

variable {H N : Type}

-- What a request came to for the continuations, told from its reply.
inductive Filing (H : Type) where
  | registered (id : String) (continuation : Continuation H)
  -- An identifier was issued for a query that could not be sent.
  | withdrawn
  | cleared (id : String) (waiting : Bool)
  | nothing

namespace Filing

def clears (id : String) : Filing H → Bool
  | .cleared other _ => other = id
  | _ => false

def issues : Filing H → Bool
  | .registered _ _ | .withdrawn => true
  | _ => false

end Filing

def Asked.filing (a : Asked H) : Filing H :=
  match a.request, a.reply with
  | .register continuation, .ok (.id id) => .registered id continuation
  | .query _ _ handler, .ok (.id id) => .registered id (.once handler)
  | .queryPaths _ _ handler, .ok (.id id) => .registered id (.once handler)
  | .query _ _ _, .error (.transport _) => .withdrawn
  | .queryPaths _ _ _, .error (.transport _) => .withdrawn
  | .clear id, .ok (.flag waiting) => .cleared id waiting
  | _, _ => .nothing

structure Ledger (H : Type) where
  callbacks : CallbackTable H
  issued : Nat

namespace Ledger

def file (l : Ledger H) : Filing H → Ledger H
  | .registered id continuation => ⟨l.callbacks.insert id continuation, l.issued + 1⟩
  | .withdrawn => { l with issued := l.issued + 1 }
  | .cleared id _ => { l with callbacks := l.callbacks.erase id }
  | .nothing => l

-- A reply names the next identifier, and says of one that is cleared whether it waited.
def Truthful (l : Ledger H) : Filing H → Prop
  | .registered id _ => id = Issuer.idFor "Callback" l.issued
  | .cleared id waiting => waiting = l.callbacks.contains id
  | _ => True

def due (l : Ledger H) (op : Operation) : Option (Continuation H) :=
  op.answered?.bind l.callbacks.get?

def strike (l : Ledger H) (op : Operation) : Ledger H :=
  match op.answered? with
  | some id => { l with callbacks := (l.callbacks.take id).2 }
  | none => l

end Ledger

-- A script that follows the ledger from one state to another: an answer at once runs the
-- continuation that waits for it and is struck off before it runs, and nothing else runs a
-- continuation.
inductive Plays : Ledger H → List (Beat H) → Ledger H → Prop
  | nil (l : Ledger H) : Plays l [] l
  | asked {l m : Ledger H} {a : Asked H} {beats : List (Beat H)} (htrue : l.Truthful a.filing)
      (h : Plays (l.file a.filing) beats m) : Plays l (.asked a :: beats) m
  | answered {l m : Ledger H} {op : Operation} {k : Continuation H} {beats : List (Beat H)}
      (hdue : l.due op = some k) (h : Plays (l.strike op) beats m) :
      Plays l (.arrived op :: .ran k.handler (.answer (op.data.getD .null)) :: beats) m
  | unanswered {l m : Ledger H} {op : Operation} {beats : List (Beat H)} (hdue : l.due op = none)
      (h : Plays l beats m) : Plays l (.arrived op :: beats) m
  | event {l m : Ledger H} {handler : H} {name id : String} {data : Json} {beats : List (Beat H)}
      (h : Plays l beats m) : Plays l (.ran handler (.event name id data) :: beats) m

theorem Plays.append {l m n : Ledger H} {early late : List (Beat H)} (h : Plays l early m)
    (h' : Plays m late n) : Plays l (early ++ late) n := by
  induction h with
  | nil l => exact h'
  | asked htrue _ ih => exact .asked htrue (ih h')
  | answered hdue _ ih => exact .answered hdue (ih h')
  | unanswered hdue _ ih => exact .unanswered hdue (ih h')
  | event _ ih => exact .event (ih h')

namespace Caller

def ledger (c : Caller H) : Ledger H := ⟨c.callbacks, c.callbackIds.issued⟩

section Filed

variable {c d : Caller H} {request : Request H} {reply : Reply}

theorem ledger_setOutbox (c : Caller H) (outbox : Outbox) : (c.setOutbox outbox).ledger = c.ledger := rfl

theorem ledger_after (r : Response H) : r.after.ledger = r.caller.ledger := by
  obtain ⟨outbox, hafter⟩ := after_eq r
  rw [hafter]
  rfl

-- What a request does to the ledger can be told from the reply.
def Files (l : Ledger H) (request : Request H) (reply : Reply) (m : Ledger H) : Prop :=
  l.Truthful (Asked.filing ⟨request, reply⟩) ∧ m = l.file (Asked.filing ⟨request, reply⟩)

theorem files_nothing {l : Ledger H} (h : Asked.filing ⟨request, reply⟩ = .nothing) :
    Files l request reply l := by
  unfold Files
  rw [h]
  exact ⟨trivial, rfl⟩

theorem files_whenLive {id : String} {r : Response H}
    (hrefused : Asked.filing ⟨request, .error (.unknownObject id)⟩ = .nothing)
    (hr : Files c.ledger request r.reply r.caller.ledger) :
    Files c.ledger request (c.whenLive id r).reply (c.whenLive id r).caller.ledger := by
  unfold whenLive
  split
  · exact hr
  · exact files_nothing hrefused

theorem files_respond (c : Caller H) (request : Request H) :
    Files c.ledger request (c.respond request).reply (c.respond request).caller.ledger := by
  cases request with
  | update => exact files_whenLive rfl (files_nothing rfl)
  | query => exact files_whenLive rfl ⟨rfl, rfl⟩
  | queryPaths =>
      rw [respond_queryPaths]
      split
      · exact files_whenLive rfl ⟨rfl, rfl⟩
      · exact files_nothing rfl
  | animate => exact files_whenLive rfl (files_nothing rfl)
  | destroy => exact files_whenLive rfl (files_nothing rfl)
  | updateInterests id changes =>
      refine files_whenLive rfl ?_
      change Files c.ledger _ _ (c.interesting id changes).ledger
      have hsame : (c.interesting id changes).ledger = c.ledger := by
        unfold interesting
        split <;> rfl
      rw [hsame]
      exact files_nothing rfl
  | register => exact ⟨rfl, rfl⟩
  | clear => exact ⟨rfl, rfl⟩
  | _ => exact files_nothing rfl

-- A request that the transport refused leaves no continuation, but the identifier is gone.
theorem files_restored (hc : c.Fresh) (request : Request H) (e : TransportError) :
    Files c.ledger request (.error (.transport e)) (c.restored request).ledger := by
  have hwithdrawn : ∀ {k : Continuation H}, (forget (c.callbackIds.issue "Callback").1
      (c.registering k)).ledger = c.ledger.file .withdrawn := by
    intro k
    have hcallbacks := Dict.erase_insert_of_get?_eq_none (hc.callbacks "Callback" _ (Nat.le_refl _)) k
    exact congrArg (Ledger.mk · _) hcallbacks
  cases request with
  | query => exact ⟨trivial, hwithdrawn⟩
  | queryPaths => exact ⟨trivial, hwithdrawn⟩
  | updateInterests id changes =>
      have hsame : (c.restored (.updateInterests id changes)).ledger = c.ledger := by
        change (c.interesting id changes).ledger = c.ledger
        unfold interesting
        split <;> rfl
      rw [hsame]
      exact files_nothing rfl
  | _ => exact files_nothing rfl

theorem files_perform (run : Runner H N) (hc : c.Fresh) (hplain : request.IsPlain) :
    Files c.ledger request (perform run request c).value.1 (perform run request c).value.2.ledger := by
  have houtcome := perform_outcome run hplain c
  revert houtcome
  generalize (perform run request c).value = out
  intro houtcome
  cases houtcome with
  | response =>
      change Files _ _ _ (c.respond request).after.ledger
      rw [ledger_after]
      exact files_respond c request
  | refused e outbox =>
      change Files _ _ _ ((c.restored request).setOutbox outbox).ledger
      rw [ledger_setOutbox]
      exact files_restored hc request e

end Filed

section Courses

variable {c d : Caller H} {beats : List (Beat H)}

theorem fresh_steady : Steady (Fresh (H := H)) := fun c a hc => fresh_stable (c.move_act a) hc

theorem ledger_onset {op : Operation} (hop : op.answered? = none) : (c.onset op).ledger = c.ledger := by
  refine onset_cases c op (fun _ => rfl) (fun id hevent hid => ?_) (fun _ _ _ => rfl) rfl
  unfold Operation.answered? at hop
  rw [hevent, hid] at hop
  cases hop

theorem ledger_close (c : Caller H) (op : Operation) : (c.close op).ledger = c.ledger := by
  unfold close
  split <;> rfl

theorem ledger_answered {op : Operation} {id : String} (hop : op.answered? = some id) :
    (c.onset op).ledger = c.ledger.strike op := by
  obtain ⟨event, name, data⟩ := op
  cases event with
  | callback =>
      obtain rfl : name = some id := hop
      rfl
  | _ => cases hop

theorem Course.plays (h : Course c beats d) (hc : c.Fresh) : Plays c.ledger beats d.ledger := by
  induction h with
  | nil c => exact .nil c.ledger
  | @asked c d request beats hplain _ ih =>
      obtain ⟨htrue, hledger⟩ := files_perform idle hc hplain
      refine .asked htrue ?_
      rw [← hledger]
      exact ih (fresh_steady c (.ask request hplain) hc)
  | rewired transport _ ih => exact .asked trivial (ih (fresh_steady _ (.rewire transport) hc))
  | @answered c d op id k beats hop hget _ ih =>
      have hdue : c.ledger.due op = some k := by
        unfold Ledger.due
        rw [hop]
        exact hget
      refine .answered hdue ?_
      rw [← ledger_answered hop]
      exact ih (fresh_steady c (.onset op) hc)
  | unanswered hdue _ ih => exact .unanswered hdue (ih hc)
  | event _ ih => exact .event (ih hc)
  | @settled c d op beats hop _ ih =>
      rw [← ledger_onset hop]
      exact ih (fresh_steady c (.onset op) hc)
  | @closed c d op beats _ ih =>
      rw [← c.ledger_close op]
      exact ih (fresh_steady c (.close op) hc)

end Courses

end Caller

end SceneLink
