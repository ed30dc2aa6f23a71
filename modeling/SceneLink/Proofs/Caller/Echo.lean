import SceneLink.Proofs.Caller.Hearing

namespace SceneLink.Caller

variable {H M N E α β : Type}

-- What is kept of all that happens; of the lines of the log nothing is.
structure Gist (H N E : Type) where
  keep : List (Happening H N) → List E
  append : ∀ output more, keep (output ++ more) = keep output ++ keep more
  lines : ∀ lines : List Log.Line, keep (lines.map Happening.line) = []

def Gist.nothing : Gist H N E := ⟨fun _ => [], fun _ _ => rfl, fun _ => rfl⟩

-- Turns that leave the same state with the same result, and in which the same is kept of what happens,
-- although the notes that they leave are of two kinds.
def Echoes (f : Gist H M E) (g : Gist H N E) (p : Turn H M α) (q : Turn H N α) : Prop :=
  ∀ c, (p c).value = (q c).value ∧ f.keep (p c).output = g.keep (q c).output

section Turns

variable {f : Gist H M E} {g : Gist H N E}

theorem Echoes.bind {p : Turn H M α} {q : Turn H N α} {next : α → Turn H M β} {next' : α → Turn H N β}
    (h : Echoes f g p q) (hnext : ∀ a, Echoes f g (next a) (next' a)) :
    Echoes f g (p >>= next) (q >>= next') := by
  intro c
  obtain ⟨hvalue, hkept⟩ := h c
  obtain ⟨hvalue', hkept'⟩ := hnext (q c).value.1 (q c).value.2
  rw [bind_eq, bind_eq, f.append, g.append, hkept, hvalue, hkept']
  exact ⟨hvalue', rfl⟩

theorem echoes_get {next : Caller H → Turn H M α} {next' : Caller H → Turn H N α}
    (h : ∀ c, Echoes f g (next c) (next' c)) : Echoes f g (get >>= next) (get >>= next') := fun c => h c c

-- Turns that write to the log, if anything.
theorem echoes_ofLogged (x : Caller H → Logged Log.Line (α × Caller H)) :
    Echoes f g (fun c => (x c).mapOutput .line) (fun c => (x c).mapOutput .line) := fun c =>
  ⟨rfl, (f.lines (x c).output).trans (g.lines (x c).output).symm⟩

theorem echoes_pure (a : α) : Echoes f g (pure a) (pure a) := echoes_ofLogged fun c => pure (a, c)

theorem echoes_modify (change : Caller H → Caller H) :
    Echoes f g (modify change : Turn H M PUnit) (modify change) :=
  echoes_ofLogged fun c => pure (PUnit.unit, change c)

theorem echoes_ofAction (action : Action H α) : Echoes f g (Turn.ofAction action) (Turn.ofAction action) :=
  echoes_ofLogged action

theorem echoes_log (line : Logged Log.Line Unit) : Echoes f g (Turn.log line) (Turn.log line) :=
  echoes_ofLogged fun c => ⟨((), c), line.output⟩

theorem decode_echoes {p : Except CodecError (List Operation) → Turn H M Unit}
    {q : Except CodecError (List Operation) → Turn H N Unit} (raw : String)
    (hok : ∀ ops, Echoes f g (p (.ok ops)) (q (.ok ops)))
    (herror : ∀ e, Echoes f g (p (.error e)) (q (.error e))) :
    Echoes f g (Turn.ofLogged (Batch.decode raw) >>= p) (Turn.ofLogged (Batch.decode raw) >>= q) := by
  refine (echoes_ofLogged fun c => ⟨((Batch.decode raw).value, c), (Batch.decode raw).output⟩).bind
    fun result => ?_
  cases result with
  | ok ops => exact hok ops
  | error e => exact herror e

end Turns

section Requests

variable {f : Gist H M E} {g : Gist H N E} {full : Runner H M} {run : Runner H N}

-- A plain request runs no handler, and all that it leaves in the output are lines of the log.
theorem perform_echoes (request : Request H) (hrequest : request.IsPlain ∨ ∃ t, request = .rewire t) :
    Echoes f g (perform full request) (perform run request) := by
  have haction {α : Type} (answer : α → Answer) (action : Action H α) :
      Echoes f g (answering answer action : Turn H M Reply) (answering answer action) :=
    (echoes_ofAction action).bind fun _ => echoes_pure _
  cases request with
  | receive => rcases hrequest with h | ⟨t, h⟩ <;> cases h
  | distribute => rcases hrequest with h | ⟨t, h⟩ <;> cases h
  | rewire transport => exact (echoes_modify _).bind fun _ => echoes_pure _
  | _ => exact haction _ _

end Requests

-- Handlers of two kinds that do the same.
section Routing

variable {f : Gist H M E} {g : Gist H N E} {full : Runner H M} {run : Runner H N}
  (hrun : ∀ handler occasion, Echoes f g (full handler occasion) (run handler occasion))

include hrun

theorem runInterest_echoes (id event : String) (data : Json) :
    Echoes f g (runInterest full id event data) (runInterest run id event data) := by
  refine echoes_get fun c => ?_
  cases c.objects.handler? id event with
  | some handler => exact hrun handler _
  | none => exact echoes_pure _

theorem onCallback_echoes (id : String) (data : Json) :
    Echoes f g (onCallback full id data) (onCallback run id data) := by
  refine echoes_get fun c => ?_
  rcases c.callbacks.take id with ⟨continuation, callbacks⟩
  cases continuation with
  | some continuation => exact (echoes_modify _).bind fun _ => hrun _ _
  | none => exact echoes_log _

theorem onCreated_echoes (id : String) (data : Json) :
    Echoes f g (onCreated full id data) (onCreated run id data) := by
  have hinterest := runInterest_echoes hrun id Event.created.name data
  refine echoes_get fun c => ?_
  cases c.objects.get? id with
  | none => exact echoes_log _
  | some object =>
      dsimp only
      by_cases hstate : object.state = .requested
      · rw [if_pos hstate, if_pos hstate]
        exact (echoes_modify _).bind fun _ => hinterest
      · rw [if_neg hstate, if_neg hstate]
        exact hinterest

theorem onDestroyed_echoes (id : String) (data : Json) :
    Echoes f g (onDestroyed full id data) (onDestroyed run id data) := by
  refine echoes_get fun c => ?_
  cases c.objects.contains id with
  | true => exact (runInterest_echoes hrun _ _ _).bind fun _ => echoes_modify _
  | false => exact echoes_log _

theorem onEvent_echoes (name id : String) (data : Json) :
    Echoes f g (onEvent full name id data) (onEvent run name id data) := by
  refine echoes_get fun c => ?_
  cases c.objects.contains id with
  | true => exact runInterest_echoes hrun _ _ _
  | false => exact echoes_log _

theorem distribute_echoes (op : Operation) : Echoes f g (distribute full op) (distribute run op) := by
  have hstarted : Echoes f g (onStarted : Turn H M Unit) onStarted :=
    (echoes_log _).bind fun _ => (echoes_modify _).bind fun _ =>
      (echoes_ofAction _).bind fun _ => echoes_pure _
  obtain ⟨event, id, data⟩ := op
  cases event with
  | started => exact hstarted
  | callback =>
      cases id with
      | none => exact echoes_log _
      | some id => exact onCallback_echoes hrun _ _
  | created =>
      cases id with
      | none => exact echoes_log _
      | some id => exact onCreated_echoes hrun _ _
  | destroyed =>
      cases id with
      | none => exact echoes_log _
      | some id => exact onDestroyed_echoes hrun _ _
  | custom name =>
      cases id with
      | none => exact echoes_log _
      | some id => exact onEvent_echoes hrun _ _ _
  | _ =>
      cases id with
      | none => exact echoes_log _
      | some id => exact echoes_log _

theorem distributeAll_echoes (ops : List Operation) :
    Echoes f g (distributeAll full ops) (distributeAll run ops) := by
  induction ops with
  | nil => exact echoes_pure _
  | cons op ops ih => exact (distribute_echoes hrun op).bind fun _ => ih

theorem receive_echoes (raw : String) : Echoes f g (receive full raw) (receive run raw) := by
  refine echoes_get fun c => ?_
  cases c.settings.logWire with
  | true =>
      refine (echoes_log _).bind fun _ => ?_
      exact decode_echoes raw (distributeAll_echoes hrun) fun _ => echoes_log _
  | false => exact decode_echoes raw (distributeAll_echoes hrun) fun _ => echoes_log _

end Routing

-- Requests that are noted are the same requests.
section Noting

variable {full : Runner H (Asked H)} {run : Runner H N}

theorem react_noting_echoes {reaction : Reaction H N} (hplain : reaction.IsPlain) :
    Echoes (.nothing : Gist H (Asked H) E) .nothing (react full reaction.noting) (react run reaction) := by
  induction reaction with
  | done => exact echoes_pure _
  | note n next ih => exact fun c => ⟨(ih hplain c).1, rfl⟩
  | request request next ih =>
      obtain ⟨hrequest, hnext⟩ := hplain
      refine (perform_echoes request (.inl hrequest)).bind fun reply c => ?_
      exact ⟨(ih reply (hnext reply) c).1, rfl⟩

theorem notingRunner_echoes {behave : H → Occasion → Reaction H N}
    (hplain : ∀ handler occasion, (behave handler occasion).IsPlain) (depth : Nat) (handler : H)
    (occasion : Occasion) : Echoes (.nothing : Gist H (Asked H) E) .nothing
      (notingRunner behave depth handler occasion) (runWithin behave depth handler occasion) := by
  cases depth with
  | zero => exact fun c => ⟨rfl, rfl⟩
  | succ depth => exact fun c => ⟨(react_noting_echoes (E := E) (hplain handler occasion) c).1, rfl⟩

theorem receive_noting {behave : H → Occasion → Reaction H N}
    (hplain : ∀ handler occasion, (behave handler occasion).IsPlain) (depth : Nat) (raw : String)
    (c : Caller H) :
    (receive (notingRunner behave depth) raw c).value = (receive (runWithin behave depth) raw c).value :=
  have hrun := notingRunner_echoes (E := Unit) hplain depth
  (receive_echoes hrun raw c).1

end Noting

end SceneLink.Caller
