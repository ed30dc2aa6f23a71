import SceneLink.Caller.Pump
import SceneLink.Proofs.Caller.Callbacks
import SceneLink.Proofs.Caller.Course
import SceneLink.Proofs.Caller.Lives
import SceneLink.Proofs.Link.Conservation
import SceneLink.Proofs.Link.Grouping

namespace SceneLink

namespace Outbox

-- Nothing waits to leave, and no flush is to come.
structure Clear (o : Outbox) : Prop where
  pending : o.pending = []
  scheduled : o.scheduled = false

-- Exactly these operations left, in order, as batches that the transport took.
structure Conveyed (o : Outbox) (ops : List Operation) : Prop where
  accepted : ∀ b ∈ o.handed, b.accepted = true
  batches : ∃ groups, Cuts ops groups ∧ o.delivered = groups.map Batch.encode
  -- This is how the far end reads them.
  read : (∀ op ∈ ops, op.Fits) → o.delivered.flatMap Session.opsOf = ops.map Operation.wire

-- Over a transport that takes every batch, exactly these operations were taken in meanwhile.
def Carries (o : Outbox) (ops : List Operation) (k : Outbox) : Prop :=
  o.Lossless → k.Lossless ∧ k.texts = o.texts ++ ops.map Operation.text

section Carries

variable {o k l : Outbox} {ops more : List Operation}

theorem carries_refl (o : Outbox) : o.Carries [] o := fun h => ⟨h, (List.append_nil _).symm⟩

theorem Carries.trans (h : o.Carries ops k) (h' : k.Carries more l) : o.Carries (ops ++ more) l := by
  intro ho
  obtain ⟨hk, htexts⟩ := h ho
  obtain ⟨hl, htexts'⟩ := h' hk
  refine ⟨hl, ?_⟩
  rw [htexts', htexts, List.append_assoc, List.map_append]

theorem carries_setTransport (o : Outbox) : o.Carries [] (o.setTransport {}) := fun h =>
  ⟨⟨rfl, h.handed⟩, (List.append_nil _).symm⟩

end Carries

section Sound

variable {o : Outbox}

private theorem sound_flushed (ho : o.Sound) : o.flushed.Sound := (flush_effect o).sound ho

private theorem sound_ticked (ho : o.Sound) : o.ticked.Sound := by
  unfold ticked
  split
  · exact sound_flushed ho
  · exact ho

private theorem sound_posted (ho : o.Sound) (op : Operation) : (o.posted op).Sound :=
  send_state o op ▸ (send_effect o op).sound ho

theorem clear_flushed (o : Outbox) : o.flushed.Clear := ⟨o.flushed_spec.1, o.flushed_spec.2⟩

-- A tick may leave an outbox as it is, but only if nothing is pending.
theorem clear_ticked (ho : o.Sound) : o.ticked.Clear := by
  unfold ticked
  split
  · exact o.clear_flushed
  · next hscheduled =>
    refine ⟨?_, Bool.eq_false_iff.2 hscheduled⟩
    by_contra hpending
    exact hscheduled (ho.scheduled.2 hpending)

end Sound

section Conveyed

variable {α β : Type}

-- Groups of images are images of groups.
theorem exists_groups (f : α → β) (lists : List (List β)) :
    ∀ items : List α, lists.flatten = items.map f →
      ∃ groups : List (List α), groups.flatten = items ∧ groups.map (List.map f) = lists := by
  induction lists with
  | nil => exact fun items h => ⟨[], (List.map_eq_nil_iff.1 h.symm).symm, rfl⟩
  | cons list lists ih =>
      intro items h
      obtain ⟨first, rest, rfl, rfl, hrest⟩ := List.map_eq_append_iff.1 h.symm
      obtain ⟨groups, rfl, rfl⟩ := ih rest hrest.symm
      exact ⟨first :: groups, rfl, rfl⟩

theorem opsOf_cuts {ops : List Operation} {groups : List (List Operation)} (hcuts : Cuts ops groups)
    (hfits : ∀ op ∈ ops, op.Fits) :
    (groups.map Batch.encode).flatMap Session.opsOf = ops.map Operation.wire := by
  obtain ⟨rfl, -⟩ := hcuts
  rw [List.flatMap_def, List.map_map, List.map_flatten]
  congr 1
  apply List.map_congr_left
  intro group hgroup
  exact Session.opsOf_encode fun op hop => hfits op (List.mem_flatten.2 ⟨group, hgroup, hop⟩)

-- Once nothing is pending, all that was taken in has left.
theorem conveyed_of_clear {o : Outbox} {ops : List Operation} (hsound : o.Sound) (hclear : o.Clear)
    (hlossless : o.Lossless) (htexts : o.texts = ops.map Operation.text) : o.Conveyed ops := by
  have hflat : (o.handed.map (·.operations)).flatten = ops.map Operation.text := by
    rw [← htexts, texts, hclear.pending, List.append_nil, List.flatMap_def]
  obtain ⟨groups, hgroups, hmap⟩ := exists_groups Operation.text _ ops hflat
  have hcuts : Cuts ops groups := by
    refine ⟨hgroups, ?_⟩
    rintro _ hmem rfl
    obtain ⟨b, hb, hnil⟩ := List.mem_map.1 (hmap ▸ List.mem_map_of_mem hmem)
    exact hsound.handed b hb hnil
  have hdelivered : o.delivered = groups.map Batch.encode := by
    have hjoin : groups.map Batch.encode = (groups.map (List.map Operation.text)).map Batch.join := by
      rw [List.map_map]
      rfl
    rw [hjoin, hmap, List.map_map]
    exact delivered_eq hlossless
  refine ⟨fun b hb => (hlossless.handed b hb).1, ⟨groups, hcuts, hdelivered⟩, fun hfits => ?_⟩
  rw [hdelivered]
  exact opsOf_cuts hcuts hfits

end Conveyed

end Outbox

-- A request that leaves a transport in place that takes every batch.
def Request.keepsTransport {H : Type} : Request H → Bool
  | .rewire transport => transport = {}
  | _ => true

-- The request by which the turn ends.
def Wakeup.lastRequest {H : Type} : Wakeup → Request H
  | .closed => .flush
  | _ => .tick

theorem Wakeup.lastRequest_plain {H : Type} (wakeup : Wakeup) :
    (wakeup.lastRequest : Request H).IsPlain := by
  cases wakeup <;> trivial

namespace Caller

variable {H N : Type}

section Acts

variable {c : Caller H} {request : Request H}

theorem outbox_ask (c : Caller H) (hplain : request.IsPlain) :
    (c.act (.ask request hplain)).outbox = (c.respond request).after.outbox := by
  rcases c.act_ask request hplain with hact | ⟨-, hact⟩
  · rw [hact]
  · rw [hact]
    rfl

private theorem sound_after {r : Response H} (h : r.caller.outbox.Sound) : r.after.outbox.Sound := by
  unfold Response.after
  split
  · exact Outbox.sound_posted h _
  · exact h

private theorem sound_whenLive {id : String} {r : Response H} (hc : c.outbox.Sound)
    (hr : r.caller.outbox.Sound) : (c.whenLive id r).after.outbox.Sound :=
  sound_after (whenLive_caller (p := fun d => d.outbox.Sound) hc hr)

theorem sound_respond (h : c.outbox.Sound) (request : Request H) :
    (c.respond request).after.outbox.Sound := by
  cases request with
  | query id paths handler => exact sound_whenLive h h
  | queryPaths id pairs handler =>
      rw [respond_queryPaths]
      split
      · exact sound_whenLive h h
      · exact h
  | update id assignments => exact sound_whenLive h h
  | animate id animations => exact sound_whenLive h h
  | destroy id => exact sound_whenLive h h
  | updateInterests id changes =>
      exact sound_whenLive h (by rw [interesting_outbox]; exact h)
  | tick => exact Outbox.sound_ticked h
  | flush => exact Outbox.sound_flushed h
  | create template interests => exact sound_after h
  | setGlobals globals => exact sound_after h
  | log line => exact sound_after h
  | _ => exact h

private theorem sound_onset (h : c.outbox.Sound) (op : Operation) : (c.onset op).outbox.Sound := by
  refine onset_cases c op (fun _ => ?_) (fun _ _ _ => h) (fun _ _ _ => h) h
  exact Outbox.sound_flushed ⟨h.scheduled, h.handed⟩

-- This does not depend on the transport, and so it holds when a batch is refused as well.
theorem sound_steady : Steady fun c : Caller H => c.outbox.Sound := by
  intro c a hc
  cases a with
  | ask request hplain =>
      rw [outbox_ask]
      exact sound_respond hc request
  | rewire transport => exact ⟨hc.scheduled, hc.handed⟩
  | onset op => exact sound_onset hc op
  | close op => exact (c.close_outbox op).symm ▸ hc

theorem sound_start (settings : CallerSettings) (transport : Transport) :
    (start settings transport : Caller H).outbox.Sound :=
  ⟨by simp [start], by simp [start]⟩

theorem lossless_start (settings : CallerSettings) : (start settings {} : Caller H).outbox.Lossless :=
  ⟨rfl, by simp [start]⟩

theorem sound_follow (h : c.outbox.Sound) (acts : List (Act H)) : (c.follow acts).outbox.Sound :=
  List.foldlRecOn acts act h fun d hd a _ => sound_steady d a hd

theorem carries_respond (c : Caller H) (request : Request H) :
    c.outbox.Carries (c.respond request).sent.toList (c.respond request).after.outbox := fun h =>
  ⟨lossless_respond h request, texts_respond c request⟩

theorem carries_onset (c : Caller H) (op : Operation) : c.outbox.Carries [] (c.onset op).outbox :=
  fun h => ⟨lossless_onset h op, (c.texts_onset op).trans (List.append_nil _).symm⟩

def Act.keepsTransport : Act H → Bool
  | .rewire transport => transport = {}
  | _ => true

theorem carries_act (c : Caller H) {a : Act H} (ha : a.keepsTransport = true) :
    c.outbox.Carries (c.encodes a).toList (c.act a).outbox := by
  cases a with
  | ask request hplain =>
      rw [outbox_ask]
      exact c.carries_respond request
  | rewire transport =>
      have htransport : transport = {} := of_decide_eq_true ha
      rw [htransport]
      exact c.outbox.carries_setTransport
  | onset op => exact c.carries_onset op
  | close op =>
      have houtbox : (c.act (.close op)).outbox = c.outbox := c.close_outbox op
      rw [houtbox]
      exact c.outbox.carries_refl

theorem carries_follow (c : Caller H) {acts : List (Act H)}
    (hacts : ∀ a ∈ acts, a.keepsTransport = true) :
    c.outbox.Carries (c.encoded acts) (c.follow acts).outbox := by
  induction acts generalizing c with
  | nil => exact c.outbox.carries_refl
  | cons a acts ih =>
      obtain ⟨ha, hrest⟩ := List.forall_mem_cons.1 hacts
      exact (c.carries_act ha).trans (ih (c.act a) hrest)

theorem clear_last (h : c.outbox.Sound) (wakeup : Wakeup) :
    (c.act (.ask wakeup.lastRequest wakeup.lastRequest_plain)).outbox.Clear := by
  rw [outbox_ask]
  cases wakeup with
  | closed => exact c.outbox.clear_flushed
  | _ => exact Outbox.clear_ticked h

theorem conveyed_follow {settings : CallerSettings} {acts : List (Act H)}
    (hacts : ∀ a ∈ acts, a.keepsTransport = true)
    (hclear : ((start settings {}).follow acts).outbox.Clear) :
    ((start settings {}).follow acts).outbox.Conveyed ((start settings {}).encoded acts) := by
  obtain ⟨hlossless, htexts⟩ := carries_follow (start settings {}) hacts (lossless_start settings)
  exact Outbox.conveyed_of_clear (sound_follow (sound_start settings {}) acts) hclear hlossless htexts

end Acts

section Accounts

-- The operations that were sent, told from the requests and the replies to them.
def sentIn (output : List (Happening H (Incident H N))) : List Operation :=
  (askedIn output).filterMap Asked.sent

-- The reply to a request tells whether it sent an operation, and which.
theorem carries_asked (c : Caller H) (a : Act H)
    (hkeeps : ∀ u ∈ (c.asks? a).toList, u.request.keepsTransport = true) :
    c.outbox.Carries ((c.asks? a).toList.filterMap Asked.sent) (c.act a).outbox := by
  cases a with
  | ask request hplain =>
      intro hlossless
      have hasked : c.asks? (.ask request hplain) = some ⟨request, (c.respond request).reply⟩ := by
        have hreply := congrArg Prod.fst (perform_value hlossless idle hplain)
        exact congrArg (fun reply => some (⟨request, reply⟩ : Asked H)) hreply
      have hsent : [(⟨request, (c.respond request).reply⟩ : Asked H)].filterMap Asked.sent =
          (c.respond request).sent.toList := by
        rw [sent_respond, List.filterMap_cons]
        split
        · next hnone => rw [hnone]; rfl
        · next hsome => rw [hsome]; rfl
      rw [hasked, Option.toList_some, hsent, outbox_ask]
      exact c.carries_respond request hlossless
  | rewire transport => exact c.carries_act (hkeeps _ List.mem_cons_self)
  | onset op => exact c.carries_onset op
  | close op => exact c.carries_act rfl

theorem carries_conversation (c : Caller H) {acts : List (Act H)}
    (hkeeps : ∀ u ∈ c.conversation acts, u.request.keepsTransport = true) :
    c.outbox.Carries ((c.conversation acts).filterMap Asked.sent) (c.follow acts).outbox := by
  induction acts generalizing c with
  | nil => exact c.outbox.carries_refl
  | cons a acts ih =>
      obtain ⟨ha, hrest⟩ := List.forall_mem_append.1 hkeeps
      unfold conversation
      rw [List.filterMap_append]
      exact (c.carries_asked a ha).trans (ih (c.act a) hrest)

theorem recount_accounts (calls : List (Call H N)) (c : Caller H)
    (hkeeps : ∀ a ∈ askedIn (recount calls c).output, a.request.keepsTransport = true) :
    c.outbox.Carries (sentIn (recount calls c).output) (recount calls c).value.2.outbox := by
  obtain ⟨acts, hstate, hasked⟩ := recount_conversation calls c
  unfold sentIn
  rw [hasked] at hkeeps ⊢
  rw [hstate]
  exact c.carries_conversation hkeeps

end Accounts

section Schedule

-- What stirs a caller: its pump wakes, or a request is made of it between the turns of the pump.
inductive Stir (H : Type) where
  | wakeup (wakeup : Wakeup)
  | call (request : Request H)

structure Episode (H N : Type) where
  behave : H → Occasion → Reaction H N
  depth : Nat
  stir : Stir H

namespace Episode

def turn (e : Episode H N) : Turn H N Unit :=
  match e.stir with
  | .wakeup wakeup => pump (runWithin e.behave e.depth) wakeup
  | .call request => do
    let _ ← perform (runWithin e.behave e.depth) request

def calls (e : Episode H N) : List (Call H N) :=
  match e.stir with
  | .wakeup (.batch raw) => [⟨e.behave, e.depth, .receive raw⟩, ⟨e.behave, e.depth, .tick⟩]
  | .wakeup .timer => [⟨e.behave, e.depth, .tick⟩]
  | .wakeup .closed => [⟨e.behave, e.depth, .flush⟩]
  | .call request => [⟨e.behave, e.depth, request⟩]

end Episode

def attend : List (Episode H N) → Turn H N Unit
  | [] => return
  | episode :: episodes => do
    episode.turn
    attend episodes

def chronicle (episodes : List (Episode H N)) : Turn H (Incident H N) Unit :=
  recount (episodes.flatMap Episode.calls)

section Same

private theorem same_refl (p : Turn H N Unit) : Same p p := fun _ => ⟨rfl, rfl⟩

private theorem action_same {α : Type} (action : Action H α) {f g : Except CallerError α → Turn H N Unit}
    (h : ∀ result, Same (f result) (g result)) :
    Same (Turn.ofAction action >>= f) (Turn.ofAction action >>= g) := by
  intro c
  obtain ⟨hvalue, hacts⟩ := h (action c).value.1 (action c).value.2
  rw [bind_eq, bind_eq, acts_append, acts_append]
  exact ⟨hvalue, congrArg _ hacts⟩

-- But for the log, it makes no difference that a failure is only warned of.
theorem warnOnFailure_same (warning : CallerError → String) (action : Action H Unit)
    (answer : Unit → Answer) :
    Same (answering answer action >>= fun _ => pure () : Turn H N Unit) (warnOnFailure warning action) := by
  unfold answering
  rw [bind_assoc]
  refine action_same action fun result => ?_
  cases result with
  | ok u => exact same_refl _
  | error e => exact fun c => ⟨rfl, (acts_lines _).symm⟩

private theorem lead_append (calls more : List (Call H N)) :
    lead (calls ++ more) = lead calls >>= fun _ => lead more := by
  induction calls with
  | nil => rfl
  | cons call calls ih => rw [List.cons_append, lead, lead, ih, bind_assoc]

theorem lead_receive (behave : H → Occasion → Reaction H N) (depth : Nat) (raw : String)
    (calls : List (Call H N)) : lead (⟨behave, depth, .receive raw⟩ :: calls) =
      receive (runWithin behave depth) raw >>= fun _ => lead calls := by
  rw [lead, perform_receive, bind_assoc]
  rfl

theorem turn_same (e : Episode H N) : Same (lead e.calls) e.turn := by
  obtain ⟨behave, depth, stir⟩ := e
  have htick (warning : CallerError → String) :
      Same (lead [⟨behave, depth, .tick⟩] : Turn H N Unit) (warnOnFailure warning tick) :=
    warnOnFailure_same warning tick _
  cases stir with
  | call request => exact same_refl _
  | wakeup wakeup =>
      cases wakeup with
      | batch raw =>
          change Same (lead [_, _]) _
          rw [lead_receive]
          exact (same_refl _).bind (htick _)
      | timer => exact htick _
      | closed =>
          change Same (answering _ flush >>= fun _ => pure ()) (Turn.ofAction flush >>= fun _ => pure ())
          unfold answering
          rw [bind_assoc]
          exact action_same flush fun _ _ => ⟨rfl, rfl⟩

theorem attend_same (episodes : List (Episode H N)) :
    Same (lead (episodes.flatMap Episode.calls)) (attend episodes) := by
  induction episodes with
  | nil => exact same_refl _
  | cons episode episodes ih =>
      rw [List.flatMap_cons, lead_append]
      exact (turn_same episode).bind ih

end Same

section Turns

variable {run : Runner H N}

theorem warnOnFailure_state (warning : CallerError → String) (action : Action H Unit) (c : Caller H) :
    ((warnOnFailure warning action : Turn H N Unit) c).value.2 = (action c).value.2 := by
  rw [← ((warnOnFailure_same warning action fun _ => .unit) c).1]
  rfl

-- A turn of the pump comes down to acts, and ends with a tick, or at the end of all with a flush.
theorem pump_follow (hrun : Honest run) (c : Caller H) (wakeup : Wakeup) : ∃ acts,
    (pump run wakeup c).value.2 =
      c.follow (acts ++ [.ask wakeup.lastRequest wakeup.lastRequest_plain]) := by
  cases wakeup with
  | batch raw =>
      obtain ⟨acts, hacts⟩ := hrun.perform (.receive raw) c
      refine ⟨acts, ?_⟩
      change ((warnOnFailure _ tick : Turn H N Unit) (receive run raw c).value.2).value.2 = _
      change (receive run raw c).value.2 = _ at hacts
      rw [warnOnFailure_state, hacts, follow_append]
      rfl
  | timer =>
      refine ⟨[], ?_⟩
      change ((warnOnFailure _ tick : Turn H N Unit) c).value.2 = _
      rw [warnOnFailure_state]
      rfl
  | closed => exact ⟨[], rfl⟩

theorem turn_follow (e : Episode H N) (c : Caller H) : ∃ acts, (e.turn c).value.2 = c.follow acts := by
  obtain ⟨behave, depth, stir⟩ := e
  have hrun := honest_runWithin behave depth
  cases stir with
  | call request => exact hrun.perform request c
  | wakeup wakeup =>
      obtain ⟨acts, hacts⟩ := pump_follow hrun c wakeup
      exact ⟨_, hacts⟩

theorem attend_follow (episodes : List (Episode H N)) (c : Caller H) :
    ∃ acts, (attend episodes c).value.2 = c.follow acts := by
  induction episodes generalizing c with
  | nil => exact ⟨[], rfl⟩
  | cons episode episodes ih =>
      obtain ⟨first, hfirst⟩ := turn_follow episode c
      obtain ⟨rest, hrest⟩ := ih (c.follow first)
      refine ⟨first ++ rest, ?_⟩
      change (attend episodes (episode.turn c).value.2).value.2 = _
      rw [hfirst, hrest, follow_append]

theorem attend_append (episodes more : List (Episode H N)) (c : Caller H) :
    (attend (episodes ++ more) c).value = (attend more (attend episodes c).value.2).value := by
  induction episodes generalizing c with
  | nil => rfl
  | cons episode episodes ih => exact ih (episode.turn c).value.2

theorem clear_follow {c : Caller H} (hc : c.outbox.Sound) (acts : List (Act H)) (wakeup : Wakeup) :
    (c.follow (acts ++ [.ask wakeup.lastRequest wakeup.lastRequest_plain])).outbox.Clear := by
  rw [follow_append]
  exact clear_last (sound_follow hc acts) wakeup

theorem attend_clear (settings : CallerSettings) (transport : Transport) (episodes : List (Episode H N))
    (behave : H → Occasion → Reaction H N) (depth : Nat) (wakeup : Wakeup) :
    (attend (episodes ++ [⟨behave, depth, .wakeup wakeup⟩])
      (start settings transport)).value.2.outbox.Clear := by
  obtain ⟨acts, hacts⟩ := attend_follow episodes (start settings transport)
  obtain ⟨more, hmore⟩ := pump_follow (honest_runWithin behave depth)
    ((start settings transport).follow acts) wakeup
  rw [attend_append, hacts]
  change (pump (runWithin behave depth) wakeup _).value.2.outbox.Clear
  rw [hmore]
  exact clear_follow (sound_follow (sound_start settings transport) acts) more wakeup

end Turns

-- Whatever the schedule, after each turn of the pump nothing is pending and no flush is to come,
-- and over a transport that takes every batch the batches are what was sent until then: by requests
-- between the turns and by handlers within them, before the host has started and after, in order
-- and each operation once. With the last turn this holds of all. The account shows what was sent by
-- the requests and their replies alone, and it changes nothing. The turns come down to acts, and
-- any acts will do, so it does not matter what handlers remember from one operation of a batch to
-- the next.
theorem pump_strands_nothing (settings : CallerSettings) :
    (∀ (transport : Transport) (episodes : List (Episode H N)) (behave : H → Occasion → Reaction H N)
        (depth : Nat) (wakeup : Wakeup),
      let schedule := episodes ++ [⟨behave, depth, .wakeup wakeup⟩]
      let lived := attend schedule (start settings transport)
      let told := chronicle schedule (start settings transport)
      (told.value = lived.value ∧ echo told.output = acts lived.output) ∧
      lived.value.2.outbox.Clear ∧
      (transport = {} → (∀ a ∈ askedIn told.output, a.request.keepsTransport = true) →
        lived.value.2.outbox.Conveyed (sentIn told.output))) ∧
    (∀ run : Runner H N, Honest run → ∀ (c : Caller H) (wakeup : Wakeup), ∃ acts,
      (pump run wakeup c).value.2 =
        c.follow (acts ++ [.ask wakeup.lastRequest wakeup.lastRequest_plain])) ∧
    ∀ (acts : List (Act H)) (wakeup : Wakeup),
      let turns := acts ++ [.ask wakeup.lastRequest wakeup.lastRequest_plain]
      ((start settings {}).follow turns).outbox.Clear ∧
      ((∀ a ∈ acts, a.keepsTransport = true) →
        ((start settings {}).follow turns).outbox.Conveyed ((start settings {}).encoded turns)) := by
  refine ⟨fun transport episodes behave depth wakeup => ?_, fun run hrun => pump_follow hrun,
    fun acts wakeup => ?_⟩
  · intro schedule lived told
    have hechoes := (recount_recounts (schedule.flatMap Episode.calls)).same (attend_same schedule)
      (start settings transport)
    have hclear := attend_clear settings transport episodes behave depth wakeup
    refine ⟨hechoes, hclear, ?_⟩
    rintro rfl hkeeps
    obtain ⟨acts, hacts⟩ := attend_follow schedule (start settings {})
    have hsound : lived.value.2.outbox.Sound := by
      change (attend schedule (start settings {})).value.2.outbox.Sound
      rw [hacts]
      exact sound_follow (sound_start settings {}) acts
    obtain ⟨hlossless, htexts⟩ := recount_accounts (schedule.flatMap Episode.calls) (start settings {}) hkeeps
      (lossless_start settings)
    rw [hechoes.1] at hlossless htexts
    exact Outbox.conveyed_of_clear hsound hclear hlossless htexts
  · intro turns
    have hclear := clear_follow (sound_start settings {}) acts wakeup
    refine ⟨hclear, fun hacts => conveyed_follow ?_ hclear⟩
    rintro a hmem
    rcases List.mem_append.1 hmem with hmem | hmem
    · exact hacts a hmem
    · rw [List.mem_singleton.1 hmem]
      rfl

def greets : Unit → Occasion → Reaction Unit Unit := fun _ _ => .request (.log "hello") fun _ => .done

-- An object is asked for before the host has started, and its creation is greeted within the batch
-- that also tells of the start. One more request is made before the end.
def greeting : List (Episode Unit Unit) :=
  [⟨greets, 1, .call (.create { prefab := some "Cat" } [("Created", { spec := {}, handler := () })])⟩,
    ⟨greets, 1, .wakeup (.batch (Batch.encode [.started, .created "Cat_0"]))⟩,
    ⟨greets, 0, .call (.log "bye")⟩]

theorem pump_strands_nothing_greeting :
    let schedule := greeting ++ [⟨greets, 1, .wakeup .closed⟩]
    let lived := attend schedule (start {} {})
    let told := chronicle schedule (start {} {})
    let turns : List (Act Unit) := [.ask (.log "bye") trivial, .ask .flush trivial]
    (lived.value.2.outbox.Clear ∧ lived.value.2.outbox.Conveyed (sentIn told.output) ∧
      (sentIn told.output).map (·.event) = [.create, .log, .log]) ∧
    (∃ acts, (pump (runWithin greets 1) .closed lived.value.2).value.2 =
      lived.value.2.follow (acts ++ [.ask .flush trivial])) ∧
    ((start {} {}).follow turns).outbox.Conveyed ((start {} {}).encoded turns) := by
  obtain ⟨hschedule, hhonest, hacts⟩ := pump_strands_nothing (H := Unit) (N := Unit) {}
  obtain ⟨-, hclear, hconveyed⟩ := hschedule {} greeting greets 1 .closed
  refine ⟨⟨hclear, hconveyed rfl ?_, by decide +kernel⟩,
    hhonest _ (honest_runWithin greets 1) _ .closed, (hacts [.ask (.log "bye") trivial] .closed).2 ?_⟩
  · exact List.all_eq_true.1 (by decide +kernel)
  · exact List.forall_mem_singleton.2 rfl

end Schedule

end Caller

end SceneLink
