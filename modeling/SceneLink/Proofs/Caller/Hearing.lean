import SceneLink.Proofs.Caller.Response
import SceneLink.Proofs.Dict

namespace SceneLink

namespace Reaction

variable {H N : Type}

def noting : Reaction H N → Reaction H (Asked H)
  | done => done
  | note _ next => next.noting
  | request r next => request r fun reply => note ⟨r, reply⟩ (next reply).noting

def IsPlain : Reaction H N → Prop
  | done => True
  | note _ next => next.IsPlain
  | request r next => r.IsPlain ∧ ∀ reply, (next reply).IsPlain

end Reaction

namespace Caller

variable {H N : Type}

inductive Asks : Caller H → List (Asked H) → Caller H → Prop
  | nil (c : Caller H) : Asks c [] c
  | cons {c d : Caller H} {request : Request H} {asked : List (Asked H)} (hplain : request.IsPlain)
      (h : Asks (c.respond request).after asked d) :
      Asks c (⟨request, (c.respond request).reply⟩ :: asked) d

def notes (output : List (Happening H (Asked H))) : List (Asked H) :=
  output.filterMap fun
    | .noted asked => some asked
    | _ => none

def runs (output : List (Happening H N)) : List (H × Occasion) :=
  output.filterMap fun
    | .ran handler occasion => some (handler, occasion)
    | _ => none

section Lossless

private theorem lossless_after {r : Response H} (h : r.caller.outbox.Lossless) : r.after.outbox.Lossless := by
  unfold Response.after
  split
  · exact Outbox.lossless_posted h _
  · exact h

private theorem lossless_whenLive {c : Caller H} {id : String} {r : Response H} (hc : c.outbox.Lossless)
    (hr : r.caller.outbox.Lossless) : (c.whenLive id r).after.outbox.Lossless := by
  apply lossless_after
  unfold whenLive
  split
  · exact hr
  · exact hc

theorem interesting_outbox (c : Caller H) (id : String) (changes : HandlerChanges H) :
    (c.interesting id changes).outbox = c.outbox := by
  unfold interesting
  split <;> rfl

theorem lossless_respond {c : Caller H} (h : c.outbox.Lossless) (request : Request H) :
    (c.respond request).after.outbox.Lossless := by
  cases request with
  | query id paths handler => exact lossless_whenLive h h
  | queryPaths id pairs handler =>
      rw [respond_queryPaths]
      split
      · exact lossless_whenLive h h
      · exact h
  | update id assignments => exact lossless_whenLive h h
  | animate id animations => exact lossless_whenLive h h
  | destroy id => exact lossless_whenLive h h
  | updateInterests id changes =>
      exact lossless_whenLive h (by rw [interesting_outbox]; exact h)
  | tick => exact Outbox.lossless_ticked h
  | flush => exact Outbox.lossless_flushed h
  | create template interests => exact lossless_after h
  | setGlobals globals => exact lossless_after h
  | log line => exact lossless_after h
  | _ => exact h

theorem Asks.lossless {c d : Caller H} {asked : List (Asked H)} (h : Asks c asked d)
    (hc : c.outbox.Lossless) : d.outbox.Lossless := by
  induction h with
  | nil c => exact hc
  | cons hplain h ih => exact ih (lossless_respond hc _)

end Lossless

section Texts

private theorem texts_after (r : Response H) :
    r.after.outbox.texts = r.caller.outbox.texts ++ r.sent.toList.map Operation.text := by
  unfold Response.after
  cases r.sent with
  | none => exact (List.append_nil _).symm
  | some op => exact Outbox.texts_posted _ op

private theorem texts_whenLive {c : Caller H} {id : String} {r : Response H}
    (h : r.caller.outbox = c.outbox) :
    (c.whenLive id r).after.outbox.texts =
      c.outbox.texts ++ (c.whenLive id r).sent.toList.map Operation.text := by
  rw [texts_after]
  unfold whenLive
  split
  · rw [h]
  · rfl

theorem texts_respond (c : Caller H) (request : Request H) :
    (c.respond request).after.outbox.texts =
      c.outbox.texts ++ (c.respond request).sent.toList.map Operation.text := by
  cases request with
  | query id paths handler => exact texts_whenLive rfl
  | queryPaths id pairs handler =>
      rw [respond_queryPaths]
      split
      · exact texts_whenLive rfl
      · exact texts_after _
  | update id assignments => exact texts_whenLive rfl
  | animate id animations => exact texts_whenLive rfl
  | destroy id => exact texts_whenLive rfl
  | updateInterests id changes => exact texts_whenLive (interesting_outbox c id changes)
  | tick => exact (Outbox.texts_ticked _).trans (List.append_nil _).symm
  | flush => exact (Outbox.texts_flushed _).trans (List.append_nil _).symm
  | _ => exact texts_after _

end Texts

section Turns

variable {α β : Type}

theorem bind_eq (p : Turn H N α) (f : α → Turn H N β) (c : Caller H) :
    (p >>= f) c = ⟨(f (p c).value.1 (p c).value.2).value,
      (p c).output ++ (f (p c).value.1 (p c).value.2).output⟩ := rfl

theorem bind_get (f : Caller H → Turn H N β) (c : Caller H) : ((get : Turn H N (Caller H)) >>= f) c = f c c :=
  rfl

theorem bind_modify (g : Caller H → Caller H) (f : PUnit → Turn H N β) (c : Caller H) :
    ((modify g : Turn H N PUnit) >>= f) c = f ⟨⟩ (g c) := rfl

private theorem bind_log (line : Logged Log.Line Unit) (f : Unit → Turn H N β) (c : Caller H) :
    ((Turn.log line : Turn H N Unit) >>= f) c =
      ⟨(f () c).value, line.output.map .line ++ (f () c).output⟩ := rfl

theorem runs_append (a b : List (Happening H N)) : runs (a ++ b) = runs a ++ runs b :=
  List.filterMap_append

theorem notes_append (a b : List (Happening H (Asked H))) : notes (a ++ b) = notes a ++ notes b :=
  List.filterMap_append

-- Lines of the log are no runs and no notes.
theorem runs_lines (lines : List Log.Line) :
    runs (lines.map (Happening.line : Log.Line → Happening H N)) = [] := by
  induction lines with
  | nil => rfl
  | cons line lines ih => exact ih

private theorem notes_lines (lines : List Log.Line) :
    notes (lines.map (Happening.line : Log.Line → Happening H (Asked H))) = [] := by
  induction lines with
  | nil => rfl
  | cons line lines ih => exact ih

-- What happened apart from the lines of the log.
def acts (output : List (Happening H N)) : List (Happening H N) :=
  output.filter fun
    | .line _ => false
    | _ => true

theorem acts_append (a b : List (Happening H N)) : acts (a ++ b) = acts a ++ acts b :=
  List.filter_append _ _

theorem acts_lines (lines : List Log.Line) :
    acts (lines.map (Happening.line : Log.Line → Happening H N)) = [] := by
  induction lines with
  | nil => rfl
  | cons line lines ih => exact ih

end Turns

section Handlers

theorem perform_output (run : Runner H (Asked H)) {request : Request H} (hplain : request.IsPlain)
    (c : Caller H) :
    notes (perform run request c).output = [] ∧ runs (perform run request c).output = [] := by
  have hlines : ∀ {α : Type} (answer : α → Answer) (action : Action H α),
      notes ((answering answer action : Turn H (Asked H) Reply) c).output = [] ∧
        runs ((answering answer action : Turn H (Asked H) Reply) c).output = [] := by
    intro α answer action
    have hout : ((answering answer action : Turn H (Asked H) Reply) c).output =
        (action c).output.map .line := List.append_nil _
    rw [hout]
    exact ⟨notes_lines _, runs_lines _⟩
  cases request with
  | receive => exact hplain.elim
  | distribute => exact hplain.elim
  | rewire => exact hplain.elim
  | _ => exact hlines _ _

-- A plain reaction makes its requests one after the other, and runs no handler.
theorem react_spec (run : Runner H (Asked H)) {reaction : Reaction H N} (hplain : reaction.IsPlain)
    {c : Caller H} (h : c.outbox.Lossless) :
    Asks c (notes (react run reaction.noting c).output) (react run reaction.noting c).value.2 ∧
      runs (react run reaction.noting c).output = [] := by
  induction reaction generalizing c with
  | done => exact ⟨.nil c, rfl⟩
  | note n next ih => exact ih hplain h
  | request request next ih =>
      obtain ⟨hrequest, hnext⟩ := hplain
      have hvalue := perform_value h run hrequest
      obtain ⟨hnotes, hruns⟩ := perform_output run hrequest c
      obtain ⟨hasks, hrest⟩ := ih _ (hnext (c.respond request).reply) (lossless_respond h request)
      have hreact : react run (Reaction.request request next).noting c =
          ⟨(react run (next (c.respond request).reply).noting (c.respond request).after).value,
            (perform run request c).output ++ (.noted ⟨request, (c.respond request).reply⟩ ::
              (react run (next (c.respond request).reply).noting (c.respond request).after).output)⟩ := by
        change (perform run request >>= fun reply =>
          react run (.note ⟨request, reply⟩ (next reply).noting)) c = _
        rw [bind_eq, hvalue]
        rfl
      rw [hreact, notes_append, runs_append, hnotes, hruns]
      exact ⟨.cons hrequest hasks, hrest⟩

def notingRunner (behave : H → Occasion → Reaction H N) (depth : Nat) : Runner H (Asked H) :=
  runWithin (fun handler occasion => (behave handler occasion).noting) depth

theorem notingRunner_spec {behave : H → Occasion → Reaction H N}
    (hplain : ∀ handler occasion, (behave handler occasion).IsPlain) (depth : Nat)
    (handler : H) (occasion : Occasion) {c : Caller H} (h : c.outbox.Lossless) :
    let out := notingRunner behave depth handler occasion c
    Asks c (notes out.output) out.value.2 ∧ runs out.output = [(handler, occasion)] := by
  unfold notingRunner
  cases depth with
  | zero => exact ⟨.nil c, rfl⟩
  | succ depth =>
      obtain ⟨hasks, hruns⟩ := react_spec
        (runWithin (fun handler occasion => (behave handler occasion).noting) depth)
        (hplain handler occasion) h
      exact ⟨hasks, congrArg ((handler, occasion) :: ·) hruns⟩

end Handlers

section Distribute

def onset (c : Caller H) (op : Operation) : Caller H :=
  match op.event, op.id with
  | .started, _ => c.setOutbox (c.outbox.setStarted true).flushed
  | .callback, some id => { c with callbacks := (c.callbacks.take id).2 }
  | .created, some id => match c.objects.get? id with
    | some object =>
      if object.state = .requested then { c with objects := c.objects.setState id .active } else c
    | none => c
  | _, _ => c

def close (c : Caller H) (op : Operation) : Caller H :=
  match op.event, op.id with
  | .destroyed, some id => { c with objects := c.objects.erase id }
  | _, _ => c

def answered (c : Caller H) (op : Operation) : List (H × Occasion) :=
  match op.event, op.id with
  | .callback, some id => match c.callbacks.get? id with
    | some continuation => [(continuation.handler, .answer (op.data.getD .null))]
    | none => []
  | _, _ => []

-- All that can happen before a handler runs: the outbox is started, a continuation is taken, an object becomes
-- active, or nothing.
@[elab_as_elim]
theorem onset_cases {motive : Caller H → Prop} (c : Caller H) (op : Operation)
    (started : op.event = .started → motive (c.setOutbox (c.outbox.setStarted true).flushed))
    (callback : ∀ id, op.event = .callback → op.id = some id →
      motive { c with callbacks := (c.callbacks.take id).2 })
    (created : ∀ id, op.event = .created → op.id = some id →
      motive { c with objects := c.objects.setState id .active })
    (other : motive c) : motive (c.onset op) := by
  unfold onset
  split
  · next hevent => exact started hevent
  · next id hevent hid => exact callback id hevent hid
  · next id hevent hid =>
    split
    · split
      · exact created id hevent hid
      · exact other
    · exact other
  · exact other

theorem lossless_onset {c : Caller H} (h : c.outbox.Lossless) (op : Operation) :
    (c.onset op).outbox.Lossless := by
  refine onset_cases c op (fun _ => ?_) (fun _ _ _ => h) (fun _ _ _ => h) h
  exact Outbox.lossless_flushed ⟨h.transport, h.handed⟩

theorem texts_onset (c : Caller H) (op : Operation) : (c.onset op).outbox.texts = c.outbox.texts := by
  refine onset_cases c op (fun _ => ?_) (fun _ _ _ => rfl) (fun _ _ _ => rfl) rfl
  exact Outbox.texts_flushed _

theorem onset_of_destroyed {c : Caller H} {op : Operation} (hevent : op.event = .destroyed) :
    c.onset op = c := by
  unfold onset
  rw [hevent]

theorem close_outbox (c : Caller H) (op : Operation) : (c.close op).outbox = c.outbox := by
  unfold close
  split <;> rfl

theorem close_of_ne {c : Caller H} {op : Operation} (hevent : op.event ≠ .destroyed) :
    c.close op = c := by
  unfold close
  split
  · next h _ => exact (hevent h).elim
  · rfl

theorem answered_of_ne {c : Caller H} {op : Operation} (hevent : op.event ≠ .callback) :
    c.answered op = [] := by
  unfold answered
  split
  · next h _ => exact (hevent h).elim
  · rfl

variable {behave : H → Occasion → Reaction H N}

theorem runInterest_spec (hplain : ∀ handler occasion, (behave handler occasion).IsPlain)
    (depth : Nat) (id event : String) (data : Json) {c : Caller H} (h : c.outbox.Lossless) :
    let out := runInterest (notingRunner behave depth) id event data c
    Asks c (notes out.output) out.value.2 := by
  dsimp only
  unfold runInterest
  rw [bind_get]
  cases c.objects.handler? id event with
  | none => exact .nil c
  | some handler => exact (notingRunner_spec hplain depth handler _ h).1

theorem onStarted_spec {c : Caller H} (h : c.outbox.Lossless) :
    ((onStarted : Turn H (Asked H) Unit) c).value.2 =
        c.setOutbox (c.outbox.setStarted true).flushed ∧
      notes ((onStarted : Turn H (Asked H) Unit) c).output = [] := by
  let d : Caller H := { c with outbox := c.outbox.setStarted true }
  have hflush : (flush d).value = (.ok (), d.setOutbox d.outbox.flushed) := by
    have hd : d.outbox.Lossless := ⟨h.transport, h.handed⟩
    unfold flush
    rw [Procedure.onPart_value, Procedure.mapError_value, Outbox.flush_value hd]
    rfl
  have hout : (onStarted : Turn H (Asked H) Unit) c = ⟨((), (flush d).value.2),
      (Log.info "Host started").output.map .line ++ ((flush d).output.map .line ++ [])⟩ := by
    unfold onStarted
    rw [bind_log, bind_modify]
    rfl
  rw [hout, hflush, List.append_nil, notes_append, notes_lines, notes_lines]
  exact ⟨rfl, rfl⟩

theorem onCallback_spec (hplain : ∀ handler occasion, (behave handler occasion).IsPlain)
    (depth : Nat) (id : String) (data : Json) {c : Caller H} (h : c.outbox.Lossless) :
    let out := onCallback (notingRunner behave depth) id data c
    Asks { c with callbacks := (c.callbacks.take id).2 } (notes out.output) out.value.2 ∧
      runs out.output = match c.callbacks.get? id with
        | some continuation => [(continuation.handler, .answer data)]
        | none => [] := by
  cases hget : c.callbacks.get? id with
  | none =>
      have htake : c.callbacks.take id = (none, c.callbacks) := by
        unfold CallbackTable.take
        rw [hget]
        exact congrArg (Prod.mk none) (Dict.erase_eq_self_of_get?_eq_none hget)
      unfold onCallback
      rw [bind_get, htake]
      dsimp only
      rw [show notes ((Turn.log _ : Turn H (Asked H) Unit) c).output = [] from notes_lines _]
      exact ⟨.nil c, runs_lines _⟩
  | some continuation =>
      have htake : (c.callbacks.take id).1 = some continuation := by
        unfold CallbackTable.take
        rw [hget]
        cases continuation <;> rfl
      unfold onCallback
      rw [bind_get]
      cases hpair : c.callbacks.take id with
      | mk first callbacks =>
          rw [hpair] at htake
          dsimp only at htake ⊢
          rw [htake]
          dsimp only
          rw [bind_modify]
          exact notingRunner_spec hplain depth _ _ (c := { c with callbacks }) h

private theorem notes_log (line : Logged Log.Line Unit) (c : Caller H) :
    notes ((Turn.log line : Turn H (Asked H) Unit) c).output = [] := notes_lines _

theorem onCreated_spec (hplain : ∀ handler occasion, (behave handler occasion).IsPlain)
    (depth : Nat) (id : String) (data : Json) {c : Caller H} (h : c.outbox.Lossless) :
    let out := onCreated (notingRunner behave depth) id data c
    Asks (match c.objects.get? id with
      | some object =>
        if object.state = .requested then { c with objects := c.objects.setState id .active } else c
      | none => c) (notes out.output) out.value.2 := by
  unfold onCreated
  rw [bind_get]
  cases c.objects.get? id with
  | none =>
      dsimp only
      rw [notes_log]
      exact .nil c
  | some object =>
      dsimp only
      split
      · rw [bind_modify]
        exact runInterest_spec hplain depth _ _ _ (c := { c with
          objects := c.objects.setState id .active }) h
      · exact runInterest_spec hplain depth _ _ _ h

theorem onDestroyed_spec (hplain : ∀ handler occasion, (behave handler occasion).IsPlain)
    (depth : Nat) (id : String) (data : Json) {c : Caller H} (h : c.outbox.Lossless) :
    let out := onDestroyed (notingRunner behave depth) id data c
    ∃ d, Asks c (notes out.output) d ∧ out.value.2 = { d with objects := d.objects.erase id } := by
  unfold onDestroyed
  rw [bind_get]
  split
  · have hrun := runInterest_spec hplain depth id Event.destroyed.name data h
    rw [bind_eq]
    refine ⟨_, ?_, rfl⟩
    rw [notes_append]
    exact (List.append_nil _).symm ▸ hrun
  · next hcontains =>
    have hnone : c.objects.get? id = none := by
      simpa [Dict.contains] using hcontains
    refine ⟨c, ?_, ?_⟩
    · rw [notes_log]
      exact .nil c
    · rw [Dict.erase_eq_self_of_get?_eq_none hnone]
      rfl

theorem onEvent_spec (hplain : ∀ handler occasion, (behave handler occasion).IsPlain)
    (depth : Nat) (name id : String) (data : Json) {c : Caller H} (h : c.outbox.Lossless) :
    let out := onEvent (notingRunner behave depth) name id data c
    Asks c (notes out.output) out.value.2 := by
  unfold onEvent
  rw [bind_get]
  split
  · exact runInterest_spec hplain depth id name data h
  · dsimp only
    rw [notes_log]
    exact .nil c

theorem distribute_spec (hplain : ∀ handler occasion, (behave handler occasion).IsPlain)
    (depth : Nat) (op : Operation) {c : Caller H} (h : c.outbox.Lossless) :
    let out := distribute (notingRunner behave depth) op c
    (∃ d, Asks (c.onset op) (notes out.output) d ∧ out.value.2 = d.close op) ∧
      (op.event = .callback → runs out.output = c.answered op) := by
  obtain ⟨event, id, data⟩ := op
  have hlog : ∀ (line : Logged Log.Line Unit) (e : Event), onset c ⟨e, id, data⟩ = c →
      close c ⟨e, id, data⟩ = c →
      (∃ d, Asks (onset c ⟨e, id, data⟩) (notes ((Turn.log line : Turn H (Asked H) Unit) c).output) d ∧
        ((Turn.log line : Turn H (Asked H) Unit) c).value.2 = d.close ⟨e, id, data⟩) := by
    intro line e honset hclose
    rw [honset, notes_log]
    exact ⟨c, .nil c, hclose.symm⟩
  cases event with
  | started =>
      obtain ⟨hvalue, hnotes⟩ := onStarted_spec h
      refine ⟨⟨_, ?_, hvalue⟩, fun h => nomatch h⟩
      dsimp only [distribute]
      rw [hnotes]
      exact .nil _
  | callback =>
      cases id with
      | none => exact ⟨hlog _ _ rfl rfl, fun _ => runs_lines _⟩
      | some id =>
          obtain ⟨hasks, hruns⟩ := onCallback_spec hplain depth id (data.getD .null) h
          exact ⟨⟨_, hasks, rfl⟩, fun _ => hruns⟩
  | created =>
      refine ⟨?_, fun h => nomatch h⟩
      cases id with
      | none => exact hlog _ _ rfl rfl
      | some id => exact ⟨_, onCreated_spec hplain depth id (data.getD .null) h, rfl⟩
  | destroyed =>
      refine ⟨?_, fun h => nomatch h⟩
      cases id with
      | none => exact hlog _ _ rfl rfl
      | some id => exact onDestroyed_spec hplain depth id (data.getD .null) h
  | custom name =>
      refine ⟨?_, fun h => nomatch h⟩
      cases id with
      | none => exact hlog _ _ rfl rfl
      | some id => exact ⟨_, onEvent_spec hplain depth name id (data.getD .null) h, rfl⟩
  | _ => cases id <;> exact ⟨hlog _ _ rfl rfl, fun h => nomatch h⟩

end Distribute

end Caller

end SceneLink
