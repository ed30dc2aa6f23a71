import SceneLink.Proofs.Link.Outbox
import SceneLink.Proofs.Operation.Cutting

namespace SceneLink

section Handover

variable {b : Handover}

-- The batch that the transport was given; the transport itself puts its mark in front.
def Handover.batch (b : Handover) : String := String.ofList (b.text.toList.drop b.mark.length)

theorem Handover.batch_eq (b : Handover) : b.batch = Batch.join b.operations := by
  unfold batch text
  rw [String.toList_append, ← String.length_toList, List.drop_left, String.ofList_toList]

theorem Handover.cut_batch (h : ∀ text ∈ b.operations, ∃ op : Operation, op.text = text) :
    Batch.cut b.batch = b.operations := by
  rw [b.batch_eq, Batch.cut_join h]

end Handover

namespace Outbox

inductive Call where
  | send (op : Operation)
  | flush
  | tick
  | setStarted (started : Bool)
  | setTransport (transport : Transport)

namespace Call

def run : Call → Procedure Outbox TransportError Unit
  | send op => Outbox.send op
  | flush => Outbox.flush
  | tick => Outbox.tick
  | setStarted started => modify (·.setStarted started)
  | setTransport transport => modify (·.setTransport transport)

def sent : Call → List Operation
  | send op => [op]
  | _ => []

end Call

-- A call, and how the transport takes the batch that may be handed to it during the call.
structure Turn where
  call : Call
  fault : Option String := none

def Turn.run (turn : Turn) (o : Outbox) : Except TransportError Unit × Outbox :=
  (turn.call.run (o.setFault turn.fault)).value

def after (o : Outbox) (turns : List Turn) : Outbox := turns.foldl (fun o turn => (turn.run o).2) o

-- The texts of all operations sent in the turns, in order.
def sentIn (turns : List Turn) : List String :=
  turns.flatMap fun turn => turn.call.sent.map Operation.text

def new (transport : Transport) (logWire : Bool) : Outbox := { transport, logWire }

-- A flush is scheduled as long as something is pending, and no empty batch was handed over.
structure Sound (o : Outbox) : Prop where
  scheduled : o.scheduled = true ↔ o.pending ≠ []
  handed : ∀ b ∈ o.handed, b.operations ≠ []

-- All that a turn can do: keep what is pending, or hand it over as one batch. What is sent in the
-- turn comes after what was pending before. The result is an error if the batch is refused.
inductive Effect (o : Outbox) (sent : List String) : Except TransportError Unit → Outbox → Prop
  | kept {k : Outbox} (hhanded : k.handed = o.handed) (hpending : k.pending = o.pending ++ sent)
      (hscheduled : k.scheduled = true ↔ k.pending ≠ []) : Effect o sent (.ok ()) k
  | passed {result : Except TransportError Unit} {k : Outbox} (batch : Handover)
      (hresult : batch.accepted = result.isOk) (hbatch : batch.operations = o.pending ++ sent)
      (hne : batch.operations ≠ []) (hhanded : k.handed = o.handed ++ [batch])
      (hpending : k.pending = []) (hscheduled : k.scheduled = false) : Effect o sent result k

section Effect

variable {o k : Outbox} {sent : List String} {result : Except TransportError Unit}

theorem Effect.sound (ho : o.Sound) (h : Effect o sent result k) : k.Sound := by
  cases h with
  | kept hhanded hpending hscheduled => exact ⟨hscheduled, hhanded ▸ ho.handed⟩
  | passed batch hresult hbatch hne hhanded hpending hscheduled =>
      refine ⟨by simp [hpending, hscheduled], fun b hb => ?_⟩
      rw [hhanded] at hb
      rcases List.mem_append.1 hb with hb | hb
      · exact ho.handed b hb
      · exact List.mem_singleton.1 hb ▸ hne

theorem Effect.texts (h : Effect o sent result k) : k.texts = o.texts ++ sent := by
  unfold Outbox.texts
  cases h with
  | kept hhanded hpending => rw [hhanded, hpending, List.append_assoc]
  | passed batch hresult hbatch hne hhanded hpending => simp [hhanded, hpending, hbatch]

theorem Effect.prepend {p : Outbox} {before : List String} (h : Effect p sent result k)
    (hhanded : p.handed = o.handed) (hpending : p.pending = o.pending ++ before) :
    Effect o (before ++ sent) result k := by
  cases h with
  | kept hk hpend hsched =>
      refine .kept (hk.trans hhanded) ?_ hsched
      rw [hpend, hpending, List.append_assoc]
  | passed batch hresult hbatch hne hk hpend hsched =>
      refine .passed batch hresult ?_ hne (hhanded ▸ hk) hpend hsched
      rw [hbatch, hpending, List.append_assoc]

theorem delivered_append {more : List Handover} (h : k.handed = o.handed ++ more) :
    k.delivered = o.delivered ++ (more.filter (·.accepted)).map Handover.text := by
  unfold delivered
  rw [h, List.filter_append, List.map_append]

theorem Effect.of_ok (h : Effect o sent (.ok ()) k) :
    ∃ more, k.handed = o.handed ++ more ∧ (∀ b ∈ more, b.accepted = true) ∧
      k.delivered = o.delivered ++ more.map Handover.text := by
  cases h with
  | kept hhanded =>
      have hnone : k.handed = o.handed ++ [] := hhanded.trans (List.append_nil _).symm
      exact ⟨[], hnone, List.forall_mem_nil _, delivered_append hnone⟩
  | passed batch hresult hbatch hne hhanded =>
      have haccepted : batch.accepted = true := hresult
      refine ⟨[batch], hhanded, List.forall_mem_singleton.2 haccepted, ?_⟩
      simpa [haccepted] using delivered_append hhanded

theorem Effect.of_error {e : TransportError} (h : Effect o sent (.error e) k) :
    k.pending = [] ∧ k.delivered = o.delivered ∧ ∃ lost : Handover, k.handed = o.handed ++ [lost] ∧
      lost.accepted = false ∧ lost.operations = o.pending ++ sent := by
  cases h with
  | passed batch hresult hbatch hne hhanded hpending =>
      have hrefused : batch.accepted = false := hresult
      refine ⟨hpending, ?_, batch, hhanded, hrefused, hbatch⟩
      simpa [hrefused] using delivered_append hhanded

theorem flush_effect (o : Outbox) :
    Effect o [] (Outbox.flush o).value.1 (Outbox.flush o).value.2 := by
  unfold Outbox.flush
  dsimp only
  unfold refusal? flushed
  by_cases hpending : o.pending = []
  · rw [if_pos hpending, if_pos hpending]
    exact .kept rfl (List.append_nil _).symm (by simp [hpending])
  · rw [if_neg hpending, if_neg hpending]
    refine .passed o.handover ?_ (List.append_nil _).symm hpending rfl rfl rfl
    unfold handover
    cases o.transport.fault <;> rfl

-- Without anything scheduled there is nothing to flush.
theorem tick_eq_flush (ho : o.scheduled = true ↔ o.pending ≠ []) :
    Outbox.tick o = Outbox.flush o := by
  unfold Outbox.tick
  by_cases hscheduled : o.scheduled = true
  · rw [if_pos hscheduled]
  · have hpending : o.pending = [] := by
      by_cases hne : o.pending = []
      · exact hne
      · exact absurd (ho.2 hne) hscheduled
    have hidle : o.flushed = o := by
      unfold flushed
      rw [if_pos hpending, ← Bool.eq_false_iff.2 hscheduled]
    unfold Outbox.flush flushLog
    rw [if_neg hscheduled, hidle]
    simp [refusal?, hpending]

theorem send_effect (o : Outbox) (op : Operation) :
    Effect o [op.text] (Outbox.send op o).value.1 (Outbox.send op o).value.2 := by
  unfold Outbox.send
  dsimp only
  by_cases hstarted : (o.push op).started = true
  · rw [if_pos hstarted]
    exact .kept rfl rfl (by simp [push])
  · rw [if_neg hstarted]
    have hhanded : (o.push op).handed = o.handed := rfl
    have hpending : (o.push op).pending = o.pending ++ [op.text] := rfl
    exact (flush_effect (o.push op)).prepend hhanded hpending

theorem turn_effect (ho : o.Sound) (turn : Turn) :
    Effect o (turn.call.sent.map Operation.text) (turn.run o).1 (turn.run o).2 := by
  obtain ⟨call, fault⟩ := turn
  have hhanded : (o.setFault fault).handed = o.handed := rfl
  have hpending : (o.setFault fault).pending = o.pending ++ [] := (List.append_nil _).symm
  -- The transport's answer has no part in what is handed over or pending.
  suffices heffect : Effect (o.setFault fault) (call.sent.map Operation.text)
      (call.run (o.setFault fault)).value.1 (call.run (o.setFault fault)).value.2 from
    heffect.prepend hhanded hpending
  cases call with
  | send op => exact send_effect _ op
  | flush => exact flush_effect _
  | tick =>
      change Effect _ _ (Outbox.tick _).value.1 (Outbox.tick _).value.2
      rw [tick_eq_flush (by exact ho.scheduled)]
      exact flush_effect _
  | setStarted started => exact .kept rfl (List.append_nil _).symm ho.scheduled
  | setTransport transport => exact .kept rfl (List.append_nil _).symm ho.scheduled

end Effect

section After

variable {o : Outbox}

theorem after_sound (ho : o.Sound) (turns : List Turn) : (o.after turns).Sound := by
  induction turns generalizing o with
  | nil => exact ho
  | cons turn turns ih => exact ih ((turn_effect ho turn).sound ho)

theorem after_texts (ho : o.Sound) (turns : List Turn) :
    (o.after turns).texts = o.texts ++ sentIn turns := by
  induction turns generalizing o with
  | nil => exact (List.append_nil _).symm
  | cons turn turns ih =>
      have hturn := turn_effect ho turn
      have hrest := ih (hturn.sound ho)
      rw [hturn.texts, List.append_assoc] at hrest
      exact hrest

theorem new_sound (transport : Transport) (logWire : Bool) : (new transport logWire).Sound :=
  ⟨by simp [new], by simp [new]⟩

end After

section Cut

variable {transport : Transport} {logWire : Bool} {turns : List Turn}

theorem handed_after {b : Handover} (hb : b ∈ ((new transport logWire).after turns).handed) :
    b.operations ≠ [] ∧ ∀ text ∈ b.operations, ∃ op : Operation, op.text = text := by
  refine ⟨(after_sound (new_sound transport logWire) turns).handed b hb, fun text htext => ?_⟩
  have hsent : text ∈ sentIn turns := by
    have htexts : ((new transport logWire).after turns).texts = sentIn turns :=
      after_texts (new_sound transport logWire) turns
    rw [← htexts]
    exact List.mem_append_left _ (List.mem_flatMap.2 ⟨b, hb, htext⟩)
  obtain ⟨turn, -, hturn⟩ := List.mem_flatMap.1 hsent
  obtain ⟨op, -, hop⟩ := List.mem_map.1 hturn
  exact ⟨op, hop⟩

theorem cut_handed :
    ∀ b ∈ ((new transport logWire).after turns).handed, b.batch ≠ "" ∧ Batch.cut b.batch = b.operations := by
  intro b hb
  obtain ⟨hne, hoperations⟩ := handed_after hb
  exact ⟨b.batch_eq ▸ Batch.join_ne_empty hne hoperations, Handover.cut_batch hoperations⟩

theorem after_concat (o : Outbox) (turns : List Turn) (turn : Turn) :
    o.after (turns ++ [turn]) = (turn.run (o.after turns)).2 := by
  unfold after
  rw [List.foldl_append]
  rfl

end Cut

-- After any turns of a new outbox: the batches that were handed over, cut at their commas, and what
-- is pending are together what was sent, in order. No batch is empty, nothing is pending without a
-- flush that is scheduled, and so a tick is a flush. A further turn that fails loses the one batch
-- that it hands over, with nothing left behind, and one that does not fail loses nothing.
theorem conserves_operations (transport : Transport) (logWire : Bool) (turns : List Turn) :
    let o := (new transport logWire).after turns
    o.handed.flatMap (fun b => Batch.cut b.batch) ++ o.pending = sentIn turns ∧
    (∀ b ∈ o.handed, b.text = b.mark ++ b.batch ∧ b.batch ≠ "" ∧ Batch.cut b.batch = b.operations) ∧
    (o.scheduled = true ↔ o.pending ≠ []) ∧
    Outbox.tick o = Outbox.flush o ∧
    ∀ turn : Turn, match turn.run o with
      | (.error _, k) => k.pending = [] ∧ k.delivered = o.delivered ∧
          ∃ lost : Handover, k.handed = o.handed ++ [lost] ∧ lost.accepted = false ∧
            Batch.cut lost.batch = o.pending ++ turn.call.sent.map Operation.text
      | (.ok (), k) => ∃ more, k.handed = o.handed ++ more ∧ (∀ b ∈ more, b.accepted = true) ∧
          k.delivered = o.delivered ++ more.map Handover.text := by
  intro o
  have ho : o.Sound := after_sound (new_sound transport logWire) turns
  have htexts : o.texts = sentIn turns := after_texts (new_sound transport logWire) turns
  have hcut : ∀ b ∈ o.handed, b.batch ≠ "" ∧ Batch.cut b.batch = b.operations := cut_handed
  refine ⟨?_, fun b hb => ⟨?_, hcut b hb⟩, ho.scheduled, tick_eq_flush ho.scheduled, fun turn => ?_⟩
  · rw [← htexts, texts, List.flatMap_congr fun b hb => (hcut b hb).2]
  · rw [b.batch_eq]
    rfl
  · have heffect := turn_effect ho turn
    have hlast : ∀ b ∈ (turn.run o).2.handed, Batch.cut b.batch = b.operations := by
      rw [← after_concat]
      exact fun b hb => (cut_handed b hb).2
    generalize turn.run o = out at heffect hlast ⊢
    obtain ⟨result, k⟩ := out
    cases result with
    | ok u => exact heffect.of_ok
    | error e =>
        obtain ⟨hpending, hdelivered, lost, hhanded, hrefused, hlost⟩ := heffect.of_error
        have hmem : lost ∈ k.handed := hhanded ▸ List.mem_concat_self
        exact ⟨hpending, hdelivered, lost, hhanded, hrefused, (hlast lost hmem).trans hlost⟩

end Outbox

end SceneLink
