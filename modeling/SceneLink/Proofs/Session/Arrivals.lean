import SceneLink.Proofs.Host.Speech
import SceneLink.Proofs.Session.Flow

namespace SceneLink

-- An operation that arrives at the caller, with the caller as it is then and all that happens on
-- account of it.
structure Arrival (H : Type) where
  caller : Caller H
  op : Operation
  output : List (Happening H (Asked H))

variable {H : Type}

def Arrival.hearing (a : Arrival H) : Hearing H := ⟨a.op, a.output⟩

namespace Caller

theorem runs_event {behave : H → Occasion → Reaction H Unit}
    (hplain : ∀ handler occasion, (behave handler occasion).IsPlain) (depth : Nat) {op : Operation}
    {name id : String} (hevent : op.event = .custom name) (hid : op.id = some id) {c : Caller H}
    (hl : c.outbox.Lossless) :
    runs (distribute (notingRunner behave depth) op c).output =
      (c.objects.handler? id name).toList.map (·, .event name id (op.data.getD .null)) := by
  obtain ⟨event, target, data⟩ := op
  cases hevent
  cases hid
  change runs (onEvent (notingRunner behave depth) name id (data.getD .null) c).output = _
  unfold onEvent
  rw [bind_get]
  cases hcontains : c.objects.contains id with
  | false =>
      have hnone : c.objects.get? id = none := by
        simpa [Dict.contains] using hcontains
      unfold ObjectTable.handler?
      rw [hnone]
      exact runs_lines _
  | true =>
      change runs (runInterest (notingRunner behave depth) id name (data.getD .null) c).output = _
      unfold runInterest
      rw [bind_get]
      cases c.objects.handler? id name with
      | none => rfl
      | some handler => exact (notingRunner_spec hplain depth handler _ hl).2

theorem lossless_distribute {behave : H → Occasion → Reaction H Unit}
    (hplain : ∀ handler occasion, (behave handler occasion).IsPlain) (depth : Nat) (op : Operation)
    {c : Caller H} (hl : c.outbox.Lossless) :
    (distribute (notingRunner behave depth) op c).value.2.outbox.Lossless := by
  obtain ⟨⟨d, hasks, hd⟩, -⟩ := distribute_spec hplain depth op hl
  rw [hd, close_outbox]
  exact hasks.lossless (lossless_onset hl op)

end Caller

namespace Session

def arrivals (behave : Nat → H → Occasion → Reaction H Unit) (depth : Nat) (s : Session H) :
    List Operation → List (Arrival H)
  | [] => []
  | op :: ops =>
    let run := Caller.notingRunner (behave s.heard.length) depth
    ⟨s.caller, op, (Caller.distribute run op s.caller).output⟩ :: arrivals behave depth (s.hear run op) ops

inductive Recorded : Session H → List (Arrival H) → Prop
  | start (caller : CallerSettings) (host : HostSettings) (catalog : Catalog) :
      Recorded (start caller host catalog).ship []
  | ask {s : Session H} {record : List (Arrival H)} (hs : Recorded s record) (request : Request H)
      (hplain : request.IsPlain) (hfits : (s.ask request).Fits) : Recorded (s.ask request).ship record
  | takeUp {s : Session H} {record : List (Arrival H)} (hs : Recorded s record) (raw : String)
      (rest : List String) (hup : s.up = raw :: rest) (hfits : (s.takeUp raw rest).Fits) :
      Recorded (s.takeUp raw rest).ship record
  | takeDown {s : Session H} {record : List (Arrival H)} (hs : Recorded s record) (raw : String)
      (rest : List String) (hdown : s.down = raw :: rest)
      (behave : Nat → H → Occasion → Reaction H Unit) (depth : Nat)
      (hplain : ∀ n handler occasion, (behave n handler occasion).IsPlain)
      (hfits : (takeDown behave depth s raw rest).Fits) :
      Recorded (takeDown behave depth s raw rest).ship
        (record ++ arrivals behave depth { s with down := rest } (opsOf raw))
  | act {s : Session H} {record : List (Arrival H)} (hs : Recorded s record) (deed : Deed)
      (hown : deed.IsOwn) (hfits : (s.act deed).Fits) : Recorded (s.act deed).ship record

variable {s : Session H} {record : List (Arrival H)}

theorem Recorded.reachable (hs : Recorded s record) : s.Reachable := by
  induction hs with
  | start caller host catalog => exact .start caller host catalog
  | ask hs request hplain hfits ih => exact ih.step (.ask _ request hplain) hfits
  | takeUp hs raw rest hup hfits ih => exact ih.step (.takeUp _ raw rest hup) hfits
  | takeDown hs raw rest hdown behave depth hplain hfits ih =>
      exact ih.step (.takeDown _ raw rest hdown behave depth hplain) hfits
  | act hs deed hown hfits ih => exact ih.step (.act _ deed hown) hfits

section Dispatch

-- An event that arrived ran the handler that was registered for it then, and nothing else.
def Dispatched (a : Arrival H) : Prop := ∀ name id, a.op.event = .custom name → a.op.id = some id →
  Caller.runs a.output = (a.caller.objects.handler? id name).toList.map
    (·, .event name id (a.op.data.getD .null))

theorem arrivals_dispatched {behave : Nat → H → Occasion → Reaction H Unit}
    (hplain : ∀ n handler occasion, (behave n handler occasion).IsPlain) (depth : Nat)
    (hl : s.caller.outbox.Lossless) (ops : List Operation) :
    ∀ a ∈ arrivals behave depth s ops, Dispatched a := by
  induction ops generalizing s with
  | nil => exact List.forall_mem_nil _
  | cons op ops ih =>
      refine List.forall_mem_cons.2 ⟨fun name id hevent hid => ?_, ih ?_⟩
      · exact Caller.runs_event (hplain _) depth hevent hid hl
      · exact Caller.lossless_distribute (hplain _) depth op hl

theorem Recorded.dispatched (hs : Recorded s record) : ∀ a ∈ record, Dispatched a := by
  induction hs with
  | start => exact List.forall_mem_nil _
  | takeDown hs raw rest hdown behave depth hplain hfits ih =>
      have hl := hs.reachable.flow.2.caller
      refine List.forall_mem_append.2 ⟨ih, arrivals_dispatched hplain depth ?_ _⟩
      exact hl
  | ask _ _ _ _ ih => exact ih
  | takeUp _ _ _ _ _ ih => exact ih
  | act _ _ _ _ ih => exact ih

end Dispatch

section Order

def said (s : Session H) (deeds : List Deed) : List String :=
  s.origin.outbox.texts ++ s.origin.spoken deeds

def Legible (texts : List String) : Prop :=
  ∀ text ∈ texts, ∃ op : Operation, op.Fits ∧ op.text = text

-- What was said has arrived or is on its way, in order, and all of it can be read.
structure Conserved (s : Session H) (record : List (Arrival H)) : Prop where
  order : record.map (·.op) ++ s.falling = (s.said s.deeds).filterMap Operation.ofText?
  legible : Legible (s.said s.deeds)

theorem arrivals_ops (behave : Nat → H → Occasion → Reaction H Unit) (depth : Nat) (s : Session H)
    (ops : List Operation) : (arrivals behave depth s ops).map (·.op) = ops := by
  induction ops generalizing s with
  | nil => rfl
  | cons op ops ih => exact congrArg (op :: ·) (ih _)

theorem Conserved.deeds {t : Session H} {deeds : List Deed} (h : s.Conserved record) (hs : s.Reachable)
    (hdeeds : ∀ deed ∈ deeds, deed.IsOwn ∨ ∃ op, deed = .apply op) (hhost : t.host = s.host.after deeds)
    (hdown : t.down = s.down) (horigin : t.origin = s.origin) (hdone : t.deeds = s.deeds ++ deeds)
    (hfits : t.Fits) : t.Conserved record := by
  obtain ⟨hf, hl⟩ := hs.flow
  have hnow : s.host = s.origin.after s.deeds := Flow.host_eq hf
  have htexts : t.host.outbox.texts = s.host.outbox.texts ++ s.host.spoken deeds := by
    rw [hhost]
    exact Host.after_texts hl.host hdeeds
  have hsaid : t.said t.deeds = s.said s.deeds ++ s.host.spoken deeds := by
    unfold said
    rw [horigin, hdone, Host.spoken_append, ← hnow, List.append_assoc]
  refine ⟨?_, ?_⟩
  · have hfalling : t.falling = s.falling ++ (s.host.spoken deeds).filterMap Operation.ofText? := by
      unfold falling
      rw [hdown, htexts, List.filterMap_append, List.append_assoc]
    rw [hfalling, hsaid, List.filterMap_append, ← h.order, List.append_assoc]
  · rw [hsaid]
    refine List.forall_mem_append.2 ⟨h.legible, fun text htext => hfits.host text ?_⟩
    rw [htexts]
    exact List.mem_append_right _ htext

theorem Conserved.ship (h : s.Conserved record) (hfits : s.Fits) (hl : s.Lossless) :
    s.ship.Conserved record := by
  have hsaid : s.ship.said s.ship.deeds = s.said s.deeds := by
    change s.origin.outbox.texts ++ s.origin.spoken (s.deeds ++ [.collect]) = _
    rw [Host.spoken_append, Host.spoken_collect, List.append_nil]
    rfl
  refine ⟨?_, ?_⟩
  · rw [falling_ship hfits hl, hsaid]
    exact h.order
  · rw [hsaid]
    exact h.legible

theorem Recorded.conserved (hs : Recorded s record) : s.Conserved record := by
  induction hs with
  | start caller host catalog =>
      obtain ⟨-, hl, hfits⟩ := flow_start (H := H) caller host catalog
      have hsaid : (Session.start caller host catalog : Session H).said
          (Session.start caller host catalog : Session H).deeds =
            (Host.start host catalog {}).value.outbox.texts := List.append_nil _
      refine Conserved.ship ⟨?_, ?_⟩ hfits hl
      · rw [hsaid]
        rfl
      · rw [hsaid]
        exact hfits.host
  | @ask s record hs request hplain hfits ih =>
      obtain ⟨-, hl⟩ := flow_step (.ask s request hplain) hfits hs.reachable.flow.1 hs.reachable.flow.2
      exact Conserved.ship (ih.deeds hs.reachable (List.forall_mem_nil _) rfl rfl rfl
        (List.append_nil _).symm hfits) hfits hl
  | @takeUp s record hs raw rest hup hfits ih =>
      obtain ⟨-, hl⟩ := flow_step (.takeUp s raw rest hup) hfits hs.reachable.flow.1 hs.reachable.flow.2
      refine Conserved.ship (ih.deeds hs.reachable (fun deed hdeed => ?_) (receive_value raw s.host) rfl rfl
        rfl hfits) hfits hl
      rcases deedsOf_mem hdeed with ⟨-, -, op, -, rfl⟩ | rfl
      · exact .inr ⟨op, rfl⟩
      · exact .inl trivial
  | @act s record hs deed hown hfits ih =>
      obtain ⟨-, hl⟩ := flow_step (.act s deed hown) hfits hs.reachable.flow.1 hs.reachable.flow.2
      exact Conserved.ship (ih.deeds hs.reachable (List.forall_mem_singleton.2 (.inl hown)) rfl rfl rfl rfl
        hfits) hfits hl
  | @takeDown s record hs raw rest hdown behave depth hplain hfits ih =>
      obtain ⟨-, hl⟩ := flow_step (.takeDown s raw rest hdown behave depth hplain) hfits hs.reachable.flow.1
        hs.reachable.flow.2
      obtain ⟨hhost, -, hrest, horigin, hdeeds⟩ :=
        hearAll_keeps behave depth { s with down := rest } (opsOf raw)
      have hfalling : s.falling = opsOf raw ++ (Session.takeDown behave depth s raw rest).falling := by
        unfold Session.takeDown falling
        rw [hhost, hrest, hdown, List.flatMap_cons, List.append_assoc]
      have hsaid : (Session.takeDown behave depth s raw rest).said
          (Session.takeDown behave depth s raw rest).deeds = s.said s.deeds := by
        unfold Session.takeDown said
        rw [horigin, hdeeds]
      refine Conserved.ship ⟨?_, ?_⟩ hfits hl
      · rw [List.map_append, arrivals_ops, List.append_assoc, ← hfalling, hsaid]
        exact ih.order
      · rw [hsaid]
        exact ih.legible

end Order

end Session

end SceneLink
