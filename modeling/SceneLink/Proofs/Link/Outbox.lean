import SceneLink.Link.Outbox

namespace SceneLink

namespace Outbox

-- All texts taken in and not yet collected, in order.
def texts (o : Outbox) : List String := o.handed.flatMap (·.operations) ++ o.pending

def posted (o : Outbox) (op : Operation) : Outbox :=
  if o.started then { o.push op with scheduled := true } else (o.push op).flushed

def posts (o : Outbox) (ops : List Operation) : Outbox := ops.foldl posted o

def ticked (o : Outbox) : Outbox := if o.scheduled then o.flushed else o

-- The transport takes every batch, and has taken all before.
structure Lossless (o : Outbox) : Prop where
  transport : o.transport = {}
  handed : ∀ b ∈ o.handed, b.accepted = true ∧ b.mark = ""

section Lossless

theorem lossless_push {o : Outbox} (h : o.Lossless) (op : Operation) : (o.push op).Lossless :=
  ⟨h.transport, h.handed⟩

theorem lossless_flushed {o : Outbox} (h : o.Lossless) : o.flushed.Lossless := by
  unfold flushed
  split
  · exact ⟨h.transport, h.handed⟩
  · refine ⟨h.transport, fun b hb => ?_⟩
    rcases List.mem_append.1 hb with hb | hb
    · exact h.handed b hb
    · rw [List.mem_singleton.1 hb]
      unfold handover
      rw [h.transport]
      exact ⟨rfl, rfl⟩

theorem lossless_ticked {o : Outbox} (h : o.Lossless) : o.ticked.Lossless := by
  unfold ticked
  split
  · exact lossless_flushed h
  · exact h

theorem lossless_posted {o : Outbox} (h : o.Lossless) (op : Operation) : (o.posted op).Lossless := by
  unfold posted
  split
  · exact ⟨h.transport, h.handed⟩
  · exact lossless_flushed (lossless_push h op)

theorem lossless_posts {o : Outbox} (h : o.Lossless) (ops : List Operation) :
    (o.posts ops).Lossless := by
  induction ops generalizing o with
  | nil => exact h
  | cons op ops ih => exact ih (lossless_posted h op)

end Lossless

theorem refusal?_eq_none {o : Outbox} (h : o.Lossless) : o.refusal? = none := by
  unfold refusal?
  rw [h.transport]
  split <;> rfl

theorem flush_value {o : Outbox} (h : o.Lossless) : (flush o).value = (.ok (), o.flushed) := by
  unfold flush
  rw [refusal?_eq_none h]

theorem tick_value {o : Outbox} (h : o.Lossless) : (tick o).value = (.ok (), o.ticked) := by
  unfold tick ticked
  split
  · exact flush_value h
  · rfl

theorem send_value {o : Outbox} (h : o.Lossless) (op : Operation) :
    (send op o).value = (.ok (), o.posted op) := by
  unfold send posted
  dsimp only
  split
  · next hs => rw [if_pos (show o.started = true from hs)]
  · next hs =>
    rw [if_neg (show ¬o.started = true from hs)]
    exact flush_value (lossless_push h op)

-- The outbox that a call leaves does not depend on what the transport makes of a batch.
section States

variable (o : Outbox)

theorem flush_state : (flush o).value.2 = o.flushed := rfl

theorem tick_state : (tick o).value.2 = o.ticked := by
  unfold tick ticked
  split <;> rfl

theorem send_state (op : Operation) : (send op o).value.2 = o.posted op := by
  unfold send posted
  dsimp only
  split
  · next hs => rw [if_pos (show o.started = true from hs)]
  · next hs => rw [if_neg (show ¬o.started = true from hs), flush_state]

theorem started_flushed : o.flushed.started = o.started := by
  unfold flushed
  split <;> rfl

theorem started_posted (op : Operation) : (o.posted op).started = o.started := by
  unfold posted
  split
  · rfl
  · exact (o.push op).started_flushed

theorem send_value_of_started {o : Outbox} (h : o.started = true) (op : Operation) :
    (send op o).value = (.ok (), o.posted op) := by
  unfold send posted
  dsimp only
  rw [if_pos h, if_pos (show (o.push op).started = true from h)]

end States

section Texts

theorem texts_push (o : Outbox) (op : Operation) : (o.push op).texts = o.texts ++ [op.text] :=
  (List.append_assoc _ _ _).symm

theorem texts_flushed (o : Outbox) : o.flushed.texts = o.texts := by
  unfold flushed texts
  split
  · rfl
  · simp [handover]

theorem texts_ticked (o : Outbox) : o.ticked.texts = o.texts := by
  unfold ticked
  split
  · exact o.texts_flushed
  · rfl

theorem texts_posted (o : Outbox) (op : Operation) : (o.posted op).texts = o.texts ++ [op.text] := by
  unfold posted
  split
  · exact o.texts_push op
  · rw [texts_flushed, texts_push]

theorem texts_posts (o : Outbox) (ops : List Operation) :
    (o.posts ops).texts = o.texts ++ ops.map Operation.text := by
  induction ops generalizing o with
  | nil => exact (List.append_nil _).symm
  | cons op ops ih =>
      rw [posts, List.foldl_cons, ← posts, ih, texts_posted, List.append_assoc]
      rfl

end Texts

theorem delivered_eq {o : Outbox} (h : o.Lossless) :
    o.delivered = o.handed.map fun b => Batch.join b.operations := by
  unfold delivered
  rw [List.filter_eq_self.2 fun b hb => (h.handed b hb).1]
  apply List.map_congr_left
  intro b hb
  unfold Handover.text
  rw [(h.handed b hb).2, String.empty_append]

section Collect

variable {o : Outbox}

-- All texts were handed over as one batch, which the transport took.
structure IsSingle (o : Outbox) : Prop where
  transport : o.transport = {}
  handed : o.handed.map (fun b => (b.mark, b.accepted)) = [("", true)]
  pending : o.pending = []

instance (o : Outbox) : Decidable o.IsSingle :=
  decidable_of_iff (o.transport = {} ∧
    o.handed.map (fun b => (b.mark, b.accepted)) = [("", true)] ∧ o.pending = [])
    ⟨fun h => ⟨h.1, h.2.1, h.2.2⟩, fun h => ⟨h.transport, h.handed, h.pending⟩⟩

theorem collect_single (h : o.IsSingle) {ops : List Operation}
    (htexts : o.texts = ops.map Operation.text) : o.collect.1 = [Batch.encode ops] := by
  obtain ⟨b, hb, hmarked⟩ := List.map_eq_singleton_iff.1 h.handed
  have hl : o.Lossless := by
    refine ⟨h.transport, fun other hother => ?_⟩
    rw [hb, List.mem_singleton] at hother
    rw [hother]
    exact ⟨congrArg Prod.snd hmarked, congrArg Prod.fst hmarked⟩
  unfold texts at htexts
  rw [hb, h.pending, List.flatMap_singleton, List.append_nil] at htexts
  unfold collect
  rw [delivered_eq hl, hb, List.map_singleton]
  unfold Batch.encode
  rw [htexts]

theorem collect_flushed (h : o.Lossless) (hhanded : o.handed = []) {ops : List Operation}
    (hne : ops ≠ []) (hpending : o.pending = ops.map Operation.text) :
    o.flushed.collect.1 = [Batch.encode ops] := by
  have hflushed : o.flushed.handed = [o.handover] := by
    unfold flushed
    rw [if_neg (by rw [hpending]; simpa using hne), hhanded]
    rfl
  unfold collect
  rw [delivered_eq (lossless_flushed h), hflushed, List.map_singleton]
  unfold handover Batch.encode
  rw [hpending]

-- Until the far end has started, each operation is a batch of its own.
theorem collect_posted (h : o.Lossless) (hstarted : o.started = false) (hpending : o.pending = [])
    (hhanded : o.handed = []) (op : Operation) : (o.posted op).collect.1 = [Batch.encode [op]] := by
  unfold posted
  rw [if_neg (by rw [hstarted]; exact Bool.false_ne_true)]
  refine collect_flushed (lossless_push h op) hhanded (List.cons_ne_nil op []) ?_
  unfold push
  rw [hpending]
  rfl

end Collect

end Outbox

end SceneLink
