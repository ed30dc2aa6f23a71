import SceneLink.Proofs.Caller.Tables

namespace SceneLink.Caller

variable {H N : Type}

def idle : Runner H Unit := fun _ _ => pure ()

inductive Move : Caller H → Caller H → Prop
  | ask (c : Caller H) (request : Request H) (hplain : request.IsPlain) :
      Move c (perform idle request c).value.2
  | rewire (c : Caller H) (transport : Transport) :
      Move c (c.setOutbox (c.outbox.setTransport transport))
  | collect (c : Caller H) : Move c c.collect.2
  | onset (c : Caller H) (op : Operation) : Move c (c.onset op)
  | close (c : Caller H) (op : Operation) : Move c (c.close op)

def Stable (inv : Caller H → Prop) : Prop := ∀ {c d : Caller H}, Move c d → inv c → inv d

-- One thing that a caller does at once, or that its transport does meanwhile; to collect what was
-- handed over is no act of the caller.
inductive Act (H : Type) where
  | ask (request : Request H) (hplain : request.IsPlain)
  | rewire (transport : Transport)
  | onset (op : Operation)
  | close (op : Operation)

def act (c : Caller H) : Act H → Caller H
  | .ask request _ => (perform idle request c).value.2
  | .rewire transport => c.setOutbox (c.outbox.setTransport transport)
  | .onset op => c.onset op
  | .close op => c.close op

theorem move_act (c : Caller H) (a : Act H) : Move c (c.act a) := by
  cases a with
  | ask request hplain => exact .ask c request hplain
  | rewire transport => exact .rewire c transport
  | onset op => exact .onset c op
  | close op => exact .close c op

def follow (c : Caller H) (acts : List (Act H)) : Caller H := acts.foldl act c

theorem follow_append (c : Caller H) (first second : List (Act H)) :
    c.follow (first ++ second) = (c.follow first).follow second := List.foldl_append

def Steady (inv : Caller H → Prop) : Prop := ∀ (c : Caller H) (a : Act H), inv c → inv (c.act a)

namespace Turn

variable {α β : Type}

def Keeps (inv : Caller H → Prop) (p : Turn H N α) : Prop := ∀ c, inv c → inv (p c).value.2

variable {inv : Caller H → Prop}

theorem Keeps.bind {p : Turn H N α} {f : α → Turn H N β} (hp : Keeps inv p)
    (hf : ∀ a, Keeps inv (f a)) : Keeps inv (p >>= f) := fun c hc => hf _ _ (hp c hc)

theorem keeps_pure (a : α) : Keeps inv (pure a : Turn H N α) := fun _ hc => hc

theorem keeps_log (line : Logged Log.Line Unit) : Keeps inv (Turn.log line : Turn H N Unit) :=
  fun _ hc => hc

theorem keeps_tell (happening : Happening H N) : Keeps inv (Turn.tell happening) := fun _ hc => hc

end Turn

section Steady

open Turn

variable {inv : Caller H → Prop} {run : Runner H N}

theorem runInterest_keeps (hrun : ∀ handler occasion, Keeps inv (run handler occasion))
    (id event : String) (data : Json) : Keeps inv (runInterest run id event data) := by
  intro c hc
  unfold runInterest
  rw [bind_get]
  cases c.objects.handler? id event with
  | none => exact hc
  | some handler => exact hrun handler _ c hc

theorem onStarted_keeps (hinv : Steady inv) (op : Operation) (hevent : op.event = .started) :
    Keeps inv (onStarted : Turn H N Unit) := by
  intro c hc
  have honset : c.onset op = ((onStarted : Turn H N Unit) c).value.2 := by
    unfold onset
    rw [hevent]
    rfl
  exact honset ▸ hinv c (.onset op) hc

theorem onCallback_keeps (hinv : Steady inv)
    (hrun : ∀ handler occasion, Keeps inv (run handler occasion)) (id : String) (data : Json) :
    Keeps inv (onCallback run id data) := by
  intro c hc
  have hmove := hinv c (.onset (Operation.callback id data)) hc
  change inv { c with callbacks := (c.callbacks.take id).2 } at hmove
  unfold onCallback
  rw [bind_get]
  revert hmove
  rcases c.callbacks.take id with ⟨continuation, callbacks⟩
  intro hmove
  cases continuation with
  | none => exact hc
  | some continuation => exact hrun continuation.handler _ _ hmove

theorem onCreated_keeps (hinv : Steady inv)
    (hrun : ∀ handler occasion, Keeps inv (run handler occasion)) (id : String) (data : Json) :
    Keeps inv (onCreated run id data) := by
  intro c hc
  have hmove := hinv c (.onset (Operation.created id)) hc
  change inv (c.onset (Operation.created id)) at hmove
  rw [onset_created c (Operation.created id) rfl rfl] at hmove
  unfold onCreated
  rw [bind_get]
  revert hmove
  cases c.objects.get? id with
  | none => exact fun _ => hc
  | some object =>
      intro hmove
      dsimp only at hmove ⊢
      split at hmove
      · next hstate =>
        rw [if_pos hstate, bind_modify]
        exact runInterest_keeps hrun _ _ _ _ hmove
      · next hstate =>
        rw [if_neg hstate]
        exact runInterest_keeps hrun _ _ _ _ hmove

theorem onDestroyed_keeps (hinv : Steady inv)
    (hrun : ∀ handler occasion, Keeps inv (run handler occasion)) (id : String) (data : Json) :
    Keeps inv (onDestroyed run id data) := by
  intro c hc
  unfold onDestroyed
  rw [bind_get]
  split
  · refine (runInterest_keeps hrun _ _ _).bind (fun _ d hd => ?_) c hc
    exact hinv d (.close (Operation.destroyed id)) hd
  · exact hc

theorem onEvent_keeps (hrun : ∀ handler occasion, Keeps inv (run handler occasion))
    (name id : String) (data : Json) : Keeps inv (onEvent run name id data) := by
  intro c hc
  unfold onEvent
  rw [bind_get]
  split
  · exact runInterest_keeps hrun _ _ _ c hc
  · exact hc

theorem distribute_keeps (hinv : Steady inv)
    (hrun : ∀ handler occasion, Keeps inv (run handler occasion)) (op : Operation) :
    Keeps inv (distribute run op) := by
  have hstarted := onStarted_keeps (N := N) hinv op
  unfold distribute
  dsimp only
  split
  · next hevent => exact hstarted hevent
  · exact keeps_log _
  · exact onCallback_keeps hinv hrun _ _
  · exact onCreated_keeps hinv hrun _ _
  · exact onDestroyed_keeps hinv hrun _ _
  · exact onEvent_keeps hrun _ _ _
  · exact keeps_log _

theorem distributeAll_keeps (hinv : Steady inv)
    (hrun : ∀ handler occasion, Keeps inv (run handler occasion)) (ops : List Operation) :
    Keeps inv (distributeAll run ops) := by
  induction ops with
  | nil => exact keeps_pure _
  | cons op ops ih => exact (distribute_keeps hinv hrun op).bind fun _ => ih

theorem decoded_keeps (hinv : Steady inv)
    (hrun : ∀ handler occasion, Keeps inv (run handler occasion))
    (result : Except CodecError (List Operation)) : Keeps inv (match result with
      | .ok ops => distributeAll run ops
      | .error e => Turn.log (Log.warn s!"Dropping malformed batch: {e.message}")) := by
  cases result with
  | ok ops => exact distributeAll_keeps hinv hrun ops
  | error e => exact keeps_log _

theorem receive_keeps (hinv : Steady inv)
    (hrun : ∀ handler occasion, Keeps inv (run handler occasion)) (raw : String) :
    Keeps inv (receive run raw) := by
  intro c hc
  unfold receive
  rw [bind_get]
  cases c.settings.logWire with
  | true => exact decoded_keeps hinv hrun _ c hc
  | false => exact decoded_keeps hinv hrun _ c hc

-- A plain request runs no handler.
theorem perform_idle (run : Runner H N) {request : Request H} (hplain : request.IsPlain)
    (c : Caller H) : (perform run request c).value = (perform idle request c).value := by
  cases request with
  | receive => exact hplain.elim
  | distribute => exact hplain.elim
  | rewire => exact hplain.elim
  | _ => rfl

theorem perform_keeps (hinv : Steady inv)
    (hrun : ∀ handler occasion, Keeps inv (run handler occasion)) (request : Request H) :
    Keeps inv (perform run request) := by
  have hask : request.IsPlain → Keeps inv (perform run request) := by
    intro hplain c hc
    rw [perform_idle run hplain]
    exact hinv c (.ask request hplain) hc
  cases request with
  | receive raw => exact (receive_keeps hinv hrun raw).bind fun _ => keeps_pure _
  | distribute op => exact (distribute_keeps hinv hrun op).bind fun _ => keeps_pure _
  | rewire transport => exact fun c hc => hinv c (.rewire transport) hc
  | _ => exact hask trivial

theorem react_keeps (hinv : Steady inv)
    (hrun : ∀ handler occasion, Keeps inv (run handler occasion)) (reaction : Reaction H N) :
    Keeps inv (react run reaction) := by
  induction reaction with
  | done => exact keeps_pure _
  | note n next ih => exact (keeps_tell _).bind fun _ => ih
  | request request next ih => exact (perform_keeps hinv hrun request).bind fun reply => ih reply

theorem runWithin_keeps (hinv : Steady inv) (behave : H → Occasion → Reaction H N) (depth : Nat)
    (handler : H) (occasion : Occasion) : Keeps inv (runWithin behave depth handler occasion) := by
  induction depth generalizing handler occasion with
  | zero => exact keeps_tell _
  | succ depth ih => exact (keeps_tell _).bind fun _ => react_keeps hinv ih _

end Steady

-- The states that a caller can be in, between the requests made of it and within handlers.
inductive Reachable : Caller H → Prop
  | start (settings : CallerSettings) (transport : Transport) : Reachable (start settings transport)
  | move {c d : Caller H} (hc : Reachable c) (hmove : Move c d) : Reachable d

end SceneLink.Caller
