import SceneLink.Proofs.Caller.Hearing
import SceneLink.Proofs.Host.Deeds

/-!
Sessions: a caller and a host joined by two channels that lose nothing and keep the order. In
one step the caller is asked something, the next batch arrives at one of the ends, or something
happens at the host. What an end hands to its transport is in the channel after the step. A
session remembers what was asked, what was heard, and the deeds of the host.
-/

namespace SceneLink

-- An operation that the caller heard, with all that happened on account of it.
structure Hearing (H : Type) where
  op : Operation
  output : List (Happening H (Asked H))

structure Session (H : Type) where
  caller : Caller H
  host : Host
  -- Batches on their way to the host, and to the caller.
  up : List String := []
  down : List String := []
  -- The host at the start.
  origin : Host
  asked : List (Asked H) := []
  heard : List (Hearing H) := []
  deeds : List Deed := []

namespace Session

variable {H : Type}

def ship (s : Session H) : Session H :=
  { s with
    caller := s.caller.collect.2
    host := s.host.perform .collect
    up := s.up ++ s.caller.collect.1
    down := s.down ++ s.host.collect.1
    deeds := s.deeds ++ [.collect] }

def start (caller : CallerSettings) (host : HostSettings) (catalog : Catalog) : Session H where
  caller := Caller.start caller {}
  host := (Host.start host catalog {}).value
  origin := (Host.start host catalog {}).value

def ask (s : Session H) (request : Request H) : Session H :=
  let out := Caller.perform (N := Unit) (fun _ _ => pure ()) request s.caller
  { s with caller := out.value.2, asked := s.asked ++ [⟨request, out.value.1⟩] }

def hear (run : Caller.Runner H (Asked H)) (s : Session H) (op : Operation) : Session H :=
  let out := Caller.distribute run op s.caller
  { s with
    caller := out.value.2
    asked := s.asked ++ Caller.notes out.output
    heard := s.heard ++ [⟨op, out.output⟩] }

-- What a handler does may depend on how many operations were heard before.
def hearAll (behave : Nat → H → Occasion → Reaction H Unit) (depth : Nat) (s : Session H)
    (ops : List Operation) : Session H :=
  ops.foldl (fun s op => s.hear (Caller.notingRunner (behave s.heard.length) depth) op) s

def opsOf (raw : String) : List Operation :=
  match (Batch.decode raw).value with
  | .ok ops => ops
  | .error _ => []

def deedsOf (raw : String) : List Deed :=
  match (Batch.decode raw).value with
  | .ok ops => ops.map Deed.apply ++ [.flush]
  | .error _ => []

def takeUp (s : Session H) (raw : String) (rest : List String) : Session H :=
  { s with
    up := rest
    host := (s.host.receive raw).value.2
    deeds := s.deeds ++ deedsOf raw }

def takeDown (behave : Nat → H → Occasion → Reaction H Unit) (depth : Nat) (s : Session H)
    (raw : String) (rest : List String) : Session H :=
  hearAll behave depth { s with down := rest } (opsOf raw)

def act (s : Session H) (deed : Deed) : Session H :=
  { s with host := s.host.perform deed, deeds := s.deeds ++ [deed] }

-- Every operation that is still in an outbox nests no deeper than a batch allows.
def Fits (s : Session H) : Prop :=
  ∀ text ∈ s.caller.outbox.texts ++ s.host.outbox.texts, ∃ op : Operation, op.Fits ∧ op.text = text

inductive Step : Session H → Session H → Prop
  | ask (s : Session H) (request : Request H) (hplain : request.IsPlain) : Step s (s.ask request)
  | takeUp (s : Session H) (raw : String) (rest : List String) (hup : s.up = raw :: rest) :
      Step s (s.takeUp raw rest)
  | takeDown (s : Session H) (raw : String) (rest : List String) (hdown : s.down = raw :: rest)
      (behave : Nat → H → Occasion → Reaction H Unit) (depth : Nat)
      (hplain : ∀ n handler occasion, (behave n handler occasion).IsPlain) :
      Step s (takeDown behave depth s raw rest)
  | act (s : Session H) (deed : Deed) (hown : deed.IsOwn) : Step s (s.act deed)

inductive Reachable : Session H → Prop
  | start (caller : CallerSettings) (host : HostSettings) (catalog : Catalog) :
      Reachable (start caller host catalog).ship
  | step {s t : Session H} (hs : Reachable s) (hstep : Step s t) (hfits : t.Fits) : Reachable t.ship

-- Nothing is queued, and nothing is on its way.
def Quiet (s : Session H) : Prop :=
  s.caller.outbox.pending = [] ∧ s.host.outbox.pending = [] ∧ s.up = [] ∧ s.down = []

section Arrival

theorem opsOf_ok {raw : String} {ops : List Operation} (h : (Batch.decode raw).value = .ok ops) :
    opsOf raw = ops := by
  unfold opsOf
  rw [h]

theorem deedsOf_ok {raw : String} {ops : List Operation} (h : (Batch.decode raw).value = .ok ops) :
    deedsOf raw = ops.map Deed.apply ++ [.flush] := by
  unfold deedsOf
  rw [h]

theorem malformed {raw : String} {e : CodecError} (h : (Batch.decode raw).value = .error e) :
    opsOf raw = [] ∧ deedsOf raw = [] := by
  unfold opsOf deedsOf
  rw [h]
  exact ⟨rfl, rfl⟩

theorem opsOf_encode {ops : List Operation} (hfits : ∀ op ∈ ops, op.Fits) :
    opsOf (Batch.encode ops) = ops.map Operation.wire :=
  opsOf_ok (congrArg Logged.value (Batch.decode_encode hfits))

theorem deedsOf_eq {raw : String} (h : opsOf raw ≠ []) :
    deedsOf raw = (opsOf raw).map Deed.apply ++ [.flush] := by
  cases hdecode : (Batch.decode raw).value with
  | error e => exact absurd (malformed hdecode).1 h
  | ok ops => rw [opsOf_ok hdecode, deedsOf_ok hdecode]

theorem deedsOf_mem {raw : String} {deed : Deed} (h : deed ∈ deedsOf raw) :
    (∃ ops, (Batch.decode raw).value = .ok ops ∧ ∃ op ∈ ops, deed = .apply op) ∨ deed = .flush := by
  cases hdecode : (Batch.decode raw).value with
  | error e =>
      rw [(malformed hdecode).2] at h
      cases h
  | ok ops =>
      rw [deedsOf_ok hdecode] at h
      rcases List.mem_append.1 h with h | h
      · obtain ⟨op, hop, rfl⟩ := List.mem_map.1 h
        exact .inl ⟨ops, rfl, op, hop, rfl⟩
      · exact .inr (List.mem_singleton.1 h)

theorem applyAll_value (ops : List Operation) (h : Host) :
    (Host.applyAll ops h).value = (.ok (), h.after (ops.map .apply)) := by
  induction ops generalizing h with
  | nil => rfl
  | cons op ops ih =>
      unfold Host.applyAll
      rw [Procedure.bind_value, Host.applyLogged_value]
      dsimp only
      rw [ih]
      unfold Host.after
      rw [List.map_cons, List.foldl_cons, Host.perform, Host.applyLogged_value]

theorem decoded_value (d : Logged Log.Line (Except CodecError (List Operation))) (h : Host) :
    ((do
      match ← (Procedure.log d : Host.Action (Except CodecError (List Operation))) with
      | .error e => Procedure.log (Log.warn s!"Dropping malformed batch: {e.message}")
      | .ok ops => do
        Host.applyAll ops
        let _ ← (Host.flush.outcome : Host.Action (Except HostError Unit))) h).value.2 =
      h.after (match d.value with
        | .ok ops => ops.map Deed.apply ++ [.flush]
        | .error _ => []) := by
  rw [Procedure.bind_value, Procedure.log_value]
  dsimp only
  cases d.value with
  | error e => rfl
  | ok ops =>
      dsimp only
      rw [Procedure.bind_value, applyAll_value]
      dsimp only
      rw [Procedure.bind_value, Procedure.outcome_value]
      rw [Host.after_append]
      rfl

-- A batch that arrives is a series of deeds.
theorem receive_value (raw : String) (h : Host) :
    (h.receive raw).value.2 = h.after (deedsOf raw) := by
  unfold Host.receive
  rw [Procedure.bind_value, Procedure.get_value]
  dsimp only
  cases h.settings.logWire with
  | true => exact decoded_value (Batch.decode raw) h
  | false => exact decoded_value (Batch.decode raw) h

theorem hearAll_caller (behave : H → Occasion → Reaction H Unit) (depth : Nat) (s : Session H)
    (ops : List Operation) :
    (hearAll (fun _ => behave) depth s ops).caller =
      (Caller.distributeAll (Caller.notingRunner behave depth) ops s.caller).value.2 := by
  induction ops generalizing s with
  | nil => rfl
  | cons op ops ih => exact ih _

-- A batch that the caller receives is heard operation by operation.
theorem receive_caller (behave : H → Occasion → Reaction H Unit) (depth : Nat) (s : Session H)
    (raw : String) :
    (Caller.receive (Caller.notingRunner behave depth) raw s.caller).value.2 =
      (hearAll (fun _ => behave) depth s (opsOf raw)).caller := by
  have hbody : ∀ d : Logged Log.Line (Except CodecError (List Operation)),
      ((do
        match ← (Caller.Turn.ofLogged d :
            Caller.Turn H (Asked H) (Except CodecError (List Operation))) with
        | .ok ops => Caller.distributeAll (Caller.notingRunner behave depth) ops
        | .error e => Caller.Turn.log (Log.warn s!"Dropping malformed batch: {e.message}"))
          s.caller).value.2 =
        (hearAll (fun _ => behave) depth s (match d.value with
          | .ok ops => ops
          | .error _ => [])).caller := by
    intro d
    rw [Caller.bind_eq]
    change (match d.value with
      | .ok ops => Caller.distributeAll (Caller.notingRunner behave depth) ops
      | .error e => Caller.Turn.log (Log.warn s!"Dropping malformed batch: {e.message}")
        : Caller.Turn H (Asked H) Unit) s.caller |>.value.2 = _
    cases d.value with
    | ok ops => exact (hearAll_caller behave depth s ops).symm
    | error e => rfl
  unfold Caller.receive
  rw [Caller.bind_get]
  cases s.caller.settings.logWire with
  | true => exact hbody (Batch.decode raw)
  | false => exact hbody (Batch.decode raw)

end Arrival

end Session

end SceneLink
