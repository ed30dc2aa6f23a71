import SceneLink.Proofs.Caller.Moves
import SceneLink.Proofs.Caller.Recount

namespace SceneLink

variable {H N : Type}

def Operation.answered? (op : Operation) : Option String :=
  match op.event with
  | .callback => op.id
  | _ => none

-- One thing that happens, as far as continuations are concerned.
inductive Beat (H : Type) where
  | arrived (op : Operation)
  | asked (a : Asked H)
  | ran (handler : H) (occasion : Occasion)

def Beat.asked? : Beat H → Option (Asked H)
  | asked a => some a
  | _ => none

-- The account without the log and without the notes that the handlers leave themselves.
def script (output : List (Happening H (Incident H N))) : List (Beat H) :=
  output.filterMap fun
    | .ran handler occasion => some (.ran handler occasion)
    | .noted (.arrived op) => some (.arrived op)
    | .noted (.asked a) => some (.asked a)
    | _ => none

theorem script_append (a b : List (Happening H (Incident H N))) :
    script (a ++ b) = script a ++ script b :=
  List.filterMap_append

theorem script_lines (lines : List Log.Line) :
    script (lines.map (Happening.line : Log.Line → Happening H (Incident H N))) = [] := by
  induction lines with
  | nil => rfl
  | cons line lines ih => exact ih

namespace Caller

-- Beats that take a caller from one state to another, each with the act behind it. An answer at
-- once runs the continuation that waits for it, and nothing else runs a continuation.
inductive Course : Caller H → List (Beat H) → Caller H → Prop
  | nil (c : Caller H) : Course c [] c
  | asked {c d : Caller H} {request : Request H} {beats : List (Beat H)} (hplain : request.IsPlain)
      (h : Course (c.act (.ask request hplain)) beats d) :
      Course c (.asked ⟨request, (perform idle request c).value.1⟩ :: beats) d
  | rewired {c d : Caller H} {beats : List (Beat H)} (transport : Transport)
      (h : Course (c.act (.rewire transport)) beats d) :
      Course c (.asked ⟨.rewire transport, .ok .unit⟩ :: beats) d
  | answered {c d : Caller H} {op : Operation} {id : String} {k : Continuation H} {beats : List (Beat H)}
      (hop : op.answered? = some id) (hget : c.callbacks.get? id = some k)
      (h : Course (c.act (.onset op)) beats d) :
      Course c (.arrived op :: .ran k.handler (.answer (op.data.getD .null)) :: beats) d
  | unanswered {c d : Caller H} {op : Operation} {beats : List (Beat H)}
      (hdue : op.answered?.bind c.callbacks.get? = none) (h : Course c beats d) :
      Course c (.arrived op :: beats) d
  | event {c d : Caller H} {handler : H} {name id : String} {data : Json} {beats : List (Beat H)}
      (h : Course c beats d) : Course c (.ran handler (.event name id data) :: beats) d
  -- What other operations change has no beat of its own.
  | settled {c d : Caller H} {op : Operation} {beats : List (Beat H)} (hop : op.answered? = none)
      (h : Course (c.act (.onset op)) beats d) : Course c beats d
  | closed {c d : Caller H} {op : Operation} {beats : List (Beat H)}
      (h : Course (c.act (.close op)) beats d) : Course c beats d

theorem Course.append {c d e : Caller H} {early late : List (Beat H)} (h : Course c early d)
    (h' : Course d late e) : Course c (early ++ late) e := by
  induction h with
  | nil c => exact h'
  | asked hplain _ ih => exact .asked hplain (ih h')
  | rewired transport _ ih => exact .rewired transport (ih h')
  | answered hop hget _ ih => exact .answered hop hget (ih h')
  | unanswered hdue _ ih => exact .unanswered hdue (ih h')
  | event _ ih => exact .event (ih h')
  | settled hop _ ih => exact .settled hop (ih h')
  | closed _ ih => exact .closed (ih h')

section Turns

variable {α β : Type}

-- A turn whose account is a course of the caller.
def Courses (p : Turn H (Incident H N) α) : Prop :=
  ∀ c, Course c (script (p c).output) (p c).value.2

-- A handler runs first, and then does what it does.
def Performs (run : Runner H (Incident H N)) : Prop := ∀ handler occasion c, ∃ beats,
  script (run handler occasion c).output = .ran handler occasion :: beats ∧
    Course c beats (run handler occasion c).value.2

theorem Courses.bind {p : Turn H (Incident H N) α} {f : α → Turn H (Incident H N) β}
    (h : Courses p) (hf : ∀ a, Courses (f a)) : Courses (p >>= f) := by
  intro c
  rw [bind_eq, script_append]
  exact (h c).append (hf _ _)

theorem courses_pure (a : α) : Courses (pure a : Turn H (Incident H N) α) := .nil

theorem courses_log (line : Logged Log.Line Unit) :
    Courses (Turn.log line : Turn H (Incident H N) Unit) := by
  intro c
  have hscript : script (Turn.log line c : Logged (Happening H (Incident H N)) _).output = [] :=
    script_lines _
  rw [hscript]
  exact .nil c

variable {run : Runner H (Incident H N)}

theorem Performs.event (hrun : Performs run) (handler : H) (name id : String) (data : Json) :
    Courses (run handler (.event name id data)) := by
  intro c
  obtain ⟨beats, hscript, hcourse⟩ := hrun handler _ c
  rw [hscript]
  exact .event hcourse

theorem runInterest_courses (hrun : Performs run) (id event : String) (data : Json) :
    Courses (runInterest run id event data) := by
  intro c
  unfold runInterest
  rw [bind_get]
  cases c.objects.handler? id event with
  | some handler => exact hrun.event handler _ _ _ c
  | none => exact .nil c

theorem onStarted_courses : Courses (onStarted : Turn H (Incident H N) Unit) := by
  intro c
  have hscript : script ((onStarted : Turn H (Incident H N) Unit) c).output = [] := by
    have hout : ((onStarted : Turn H (Incident H N) Unit) c).output =
        (Log.info "Host started").output.map .line ++
          ((flush { c with outbox := c.outbox.setStarted true }).output.map .line ++ []) := rfl
    rw [hout, script_append, script_append, script_lines, script_lines]
    rfl
  rw [hscript]
  have honset : Course (c.act (.onset Operation.started)) []
      ((onStarted : Turn H (Incident H N) Unit) c).value.2 := .nil _
  exact .settled rfl honset

theorem onCreated_courses (hrun : Performs run) (id : String) (data : Json) :
    Courses (onCreated run id data) := by
  intro c
  have hinterest := runInterest_courses hrun id Event.created.name data
  have honset := onset_created c (Operation.created id) rfl rfl
  unfold onCreated
  rw [bind_get]
  cases hget : c.objects.get? id with
  | none => exact courses_log _ c
  | some object =>
      dsimp only
      by_cases hstate : object.state = .requested
      · rw [if_pos hstate, bind_modify]
        rw [hget] at honset
        dsimp only at honset
        rw [if_pos hstate] at honset
        have hactive := hinterest (c.act (.onset (Operation.created id)))
        rw [← honset]
        exact .settled rfl hactive
      · rw [if_neg hstate]
        exact hinterest c

theorem onDestroyed_courses (hrun : Performs run) (id : String) (data : Json) :
    Courses (onDestroyed run id data) := by
  intro c
  unfold onDestroyed
  rw [bind_get]
  have hforget : Courses (modify fun c => { c with objects := c.objects.erase id } :
      Turn H (Incident H N) PUnit) := fun d =>
    have hclose : Course (d.act (.close (Operation.destroyed id))) []
      { d with objects := d.objects.erase id } := .nil _
    .closed hclose
  cases c.objects.contains id with
  | true => exact (runInterest_courses hrun _ _ _).bind (fun _ => hforget) c
  | false => exact courses_log _ c

theorem onEvent_courses (hrun : Performs run) (name id : String) (data : Json) :
    Courses (onEvent run name id data) := by
  intro c
  unfold onEvent
  rw [bind_get]
  cases c.objects.contains id with
  | true => exact runInterest_courses hrun _ _ _ c
  | false => exact courses_log _ c

theorem Courses.arrived {op : Operation} {p : Turn H (Incident H N) Unit} (h : Courses p)
    (hop : op.answered? = none) : Courses (Turn.tell (.noted (.arrived op)) >>= fun _ => p) := by
  intro c
  refine .unanswered ?_ (h c)
  rw [hop]
  rfl

theorem onCallback_courses (hrun : Performs run) (id : String) (data : Option Json) :
    Courses (Turn.tell (.noted (.arrived ⟨.callback, some id, data⟩)) >>= fun _ =>
      onCallback run id (data.getD .null)) := by
  intro c
  let op : Operation := ⟨.callback, some id, data⟩
  have hsplit : (Turn.tell (.noted (.arrived op)) >>= fun _ => onCallback run id (data.getD .null)) c =
      ⟨(onCallback run id (data.getD .null) c).value,
        .noted (.arrived op) :: (onCallback run id (data.getD .null) c).output⟩ := rfl
  rw [hsplit]
  unfold onCallback
  rw [bind_get]
  cases hget : c.callbacks.get? id with
  | none =>
      have htake : c.callbacks.take id = (none, c.callbacks.erase id) := by
        unfold CallbackTable.take
        rw [hget]
      rw [htake]
      exact .unanswered hget (.nil c)
  | some k =>
      have htake : c.callbacks.take id = (some k, (c.callbacks.take id).2) := by
        unfold CallbackTable.take
        rw [hget]
        cases k <;> rfl
      rw [htake]
      dsimp only
      rw [bind_modify]
      obtain ⟨beats, hscript, hcourse⟩ := hrun k.handler (.answer (data.getD .null)) (c.onset op)
      change Course c (.arrived op :: script (run k.handler _ (c.onset op)).output) _
      rw [hscript]
      exact .answered rfl hget hcourse

theorem arrival_courses (hrun : Performs run) (op : Operation) :
    Courses (Turn.tell (.noted (.arrived op)) >>= fun _ => distribute run op) := by
  obtain ⟨event, id, data⟩ := op
  cases event with
  | started => exact onStarted_courses.arrived rfl
  | callback =>
      cases id with
      | none => exact (courses_log _).arrived rfl
      | some id => exact onCallback_courses hrun id data
  | created =>
      cases id with
      | none => exact (courses_log _).arrived rfl
      | some id => exact (onCreated_courses hrun _ _).arrived rfl
  | destroyed =>
      cases id with
      | none => exact (courses_log _).arrived rfl
      | some id => exact (onDestroyed_courses hrun _ _).arrived rfl
  | custom name =>
      cases id with
      | none => exact (courses_log _).arrived rfl
      | some id => exact (onEvent_courses hrun _ _ _).arrived rfl
  | _ =>
      cases id with
      | none => exact (courses_log _).arrived rfl
      | some id => exact (courses_log _).arrived rfl

theorem arrivals_courses (hrun : Performs run) (ops : List Operation)
    {next : Reaction H (Incident H N)} (hnext : Courses (react run next)) :
    Courses (react run (Reaction.arrivals ops next)) := by
  induction ops with
  | nil => exact hnext
  | cons op ops ih =>
      rw [react_arrivals_cons]
      rw [← bind_assoc]
      exact (arrival_courses hrun op).bind fun _ => ih

-- A request that runs no handler leaves only lines of the log.
theorem perform_lines (run : Runner H N) {request : Request H}
    (hrequest : request.IsPlain ∨ ∃ t, request = .rewire t) (c : Caller H) :
    ∃ lines : List Log.Line, (perform run request c).output = lines.map .line := by
  have hlines {α : Type} (answer : α → Answer) (action : Action H α) :
      ∃ lines : List Log.Line,
        ((answering answer action : Turn H N Reply) c).output = lines.map .line :=
    ⟨(action c).output, List.append_nil _⟩
  cases request with
  | receive => rcases hrequest with h | ⟨t, h⟩ <;> cases h
  | distribute => rcases hrequest with h | ⟨t, h⟩ <;> cases h
  | rewire transport => exact ⟨[], rfl⟩
  | _ => exact hlines _ _

theorem ask_courses {request : Request H} (hrequest : request.IsPlain ∨ ∃ t, request = .rewire t)
    {f : Reply → Turn H (Incident H N) Unit} (hf : ∀ reply, Courses (f reply)) :
    Courses (perform run request >>= fun reply =>
      Turn.tell (.noted (.asked ⟨request, reply⟩)) >>= fun _ => f reply) := by
  intro c
  obtain ⟨lines, hlines⟩ := perform_lines run hrequest c
  have hrest := hf (perform run request c).value.1 (perform run request c).value.2
  rw [bind_eq, hlines, script_append, script_lines]
  rcases hrequest with hplain | ⟨transport, rfl⟩
  · rw [perform_idle run hplain] at hrest ⊢
    exact .asked hplain hrest
  · exact .rewired transport hrest

theorem react_courses (hrun : Performs run) (reaction : Reaction H N) :
    Courses (react run reaction.recounting) := by
  induction reaction with
  | done => exact courses_pure _
  | note n next ih => exact ih
  | request request next ih =>
      have hasked (hrequest : request.IsPlain ∨ ∃ t, request = .rewire t) :
          Courses (perform run request >>= fun reply =>
            Turn.tell (.noted (.asked ⟨request, reply⟩)) >>= fun _ => react run (next reply).recounting) :=
        ask_courses hrequest ih
      cases request with
      | receive raw => exact arrivals_courses hrun _ (ih _)
      | distribute op => exact arrivals_courses hrun _ (ih _)
      | rewire transport => exact hasked (.inr ⟨transport, rfl⟩)
      | _ => exact hasked (.inl trivial)

theorem recountingRunner_performs (behave : H → Occasion → Reaction H N) (depth : Nat) :
    Performs (recountingRunner behave depth) := by
  induction depth with
  | zero => exact fun handler occasion c => ⟨[], rfl, .nil c⟩
  | succ depth ih => exact fun handler occasion c => ⟨_, rfl, react_courses ih (behave handler occasion) c⟩

-- Whatever is asked of a caller and whatever its handlers do.
theorem recount_courses (calls : List (Call H N)) : Courses (recount calls) := by
  induction calls with
  | nil => exact courses_pure _
  | cons call calls ih =>
      exact (react_courses (recountingRunner_performs call.behave call.depth) _).bind fun _ => ih

end Turns

section Conversation

def asks? (c : Caller H) : Act H → Option (Asked H)
  | .ask request _ => some ⟨request, (perform idle request c).value.1⟩
  | .rewire transport => some ⟨.rewire transport, .ok .unit⟩
  | _ => none

def conversation (c : Caller H) : List (Act H) → List (Asked H)
  | [] => []
  | a :: acts => (c.asks? a).toList ++ (c.act a).conversation acts

def askedIn (output : List (Happening H (Incident H N))) : List (Asked H) :=
  output.filterMap fun
    | .noted (.asked a) => some a
    | _ => none

theorem askedIn_eq (output : List (Happening H (Incident H N))) :
    askedIn output = (script output).filterMap Beat.asked? := by
  unfold askedIn script
  rw [List.filterMap_filterMap]
  refine List.filterMap_congr fun happening _ => ?_
  cases happening with
  | line line => rfl
  | ran handler occasion => rfl
  | noted i => cases i <;> rfl

-- A course comes down to acts, with the same requests and replies.
theorem Course.conversation {c d : Caller H} {beats : List (Beat H)} (h : Course c beats d) :
    ∃ acts, d = c.follow acts ∧ beats.filterMap Beat.asked? = c.conversation acts := by
  induction h with
  | nil c => exact ⟨[], rfl, rfl⟩
  | asked hplain _ ih =>
      obtain ⟨acts, hd, hasked⟩ := ih
      exact ⟨.ask _ hplain :: acts, hd, congrArg (List.cons _) hasked⟩
  | rewired transport _ ih =>
      obtain ⟨acts, hd, hasked⟩ := ih
      exact ⟨.rewire transport :: acts, hd, congrArg (List.cons _) hasked⟩
  | @answered c d op id k beats hop hget _ ih =>
      obtain ⟨acts, hd, hasked⟩ := ih
      exact ⟨.onset op :: acts, hd, hasked⟩
  | unanswered hdue _ ih => exact ih
  | event _ ih => exact ih
  | @settled c d op beats hop _ ih =>
      obtain ⟨acts, hd, hasked⟩ := ih
      exact ⟨.onset op :: acts, hd, hasked⟩
  | @closed c d op beats _ ih =>
      obtain ⟨acts, hd, hasked⟩ := ih
      exact ⟨.close op :: acts, hd, hasked⟩

theorem recount_conversation (calls : List (Call H N)) (c : Caller H) :
    ∃ acts, (recount calls c).value.2 = c.follow acts ∧
      askedIn (recount calls c).output = c.conversation acts := by
  rw [askedIn_eq]
  exact (recount_courses calls c).conversation

end Conversation

end Caller

end SceneLink
