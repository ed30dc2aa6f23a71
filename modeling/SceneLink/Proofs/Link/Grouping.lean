import SceneLink.Proofs.Link.Outbox
import SceneLink.Proofs.Link.Procedure

namespace SceneLink

-- Each operation as a batch of its own.
def Handover.split (b : Handover) : List Handover :=
  b.operations.map fun text => { b with operations := [text] }

namespace Outbox

-- The operations taken in, one by one, with the way that each goes.
def pieces (o : Outbox) : List Handover := o.handed.flatMap Handover.split ++ o.handover.split

-- Equality but for the grouping, and for how much of the last group is still pending.
structure Like (o p : Outbox) : Prop where
  started : o.started = p.started
  logWire : o.logWire = p.logWire
  transport : o.transport = p.transport
  pieces : o.pieces = p.pieces

section Like

variable {o p q : Outbox}

theorem Like.refl (o : Outbox) : o.Like o := ⟨rfl, rfl, rfl, rfl⟩

theorem Like.symm (h : o.Like p) : p.Like o :=
  ⟨h.started.symm, h.logWire.symm, h.transport.symm, h.pieces.symm⟩

theorem Like.trans (h : o.Like p) (h' : p.Like q) : o.Like q :=
  ⟨h.started.trans h'.started, h.logWire.trans h'.logWire, h.transport.trans h'.transport,
    h.pieces.trans h'.pieces⟩

theorem pieces_push (o : Outbox) (op : Operation) :
    (o.push op).pieces = o.pieces ++ [⟨o.transport.mark, [op.text], o.transport.fault.isNone⟩] := by
  simp [pieces, push, handover, Handover.split]

theorem Like.push (h : o.Like p) (op : Operation) : (o.push op).Like (p.push op) := by
  refine ⟨h.started, h.logWire, h.transport, ?_⟩
  rw [pieces_push, pieces_push, h.pieces, h.transport]

theorem like_flushed (o : Outbox) : o.flushed.Like o := by
  unfold flushed
  split
  · exact ⟨rfl, rfl, rfl, rfl⟩
  · refine ⟨rfl, rfl, rfl, ?_⟩
    simp [pieces, handover, Handover.split]

theorem Like.flushed (h : o.Like p) : o.flushed.Like p.flushed :=
  (like_flushed o).trans (h.trans (like_flushed p).symm)

theorem Like.posted (h : o.Like p) (op : Operation) : (o.posted op).Like (p.posted op) := by
  have hpush := h.push op
  unfold Outbox.posted
  rw [h.started]
  split
  · exact ⟨hpush.started, hpush.logWire, hpush.transport, hpush.pieces⟩
  · exact hpush.flushed

-- What is sent is never refused for what was pending before.
theorem Like.send_result (h : o.Like p) (op : Operation) :
    (send op o).value.1 = (send op p).value.1 := by
  have hrefusal : (o.push op).refusal? = (p.push op).refusal? := by
    simp [refusal?, Outbox.push, h.transport]
  unfold send
  dsimp only
  rw [show (o.push op).started = (p.push op).started from h.started]
  split
  · rfl
  · unfold flush
    rw [hrefusal]

-- Once nothing is pending the grouping is all that can differ.
theorem Like.eq_of_flushed (h : o.Like p) (ho : o.pending = [] ∧ o.scheduled = false)
    (hp : p.pending = [] ∧ p.scheduled = false) :
    { o with handed := [] } = { p with handed := [] } ∧
      o.handed.flatMap Handover.split = p.handed.flatMap Handover.split := by
  have hnone : ∀ {x : Outbox}, x.pending = [] → x.pieces = x.handed.flatMap Handover.split := by
    intro x hx
    simp [Outbox.pieces, handover, Handover.split, hx]
  have hpieces := h.pieces
  rw [hnone ho.1, hnone hp.1] at hpieces
  refine ⟨?_, hpieces⟩
  rw [h.started, h.logWire, h.transport, ho.1, ho.2, hp.1, hp.2]

theorem flushed_spec (o : Outbox) : o.flushed.pending = [] ∧ o.flushed.scheduled = false := by
  unfold Outbox.flushed
  split
  · next h => exact ⟨h, rfl⟩
  · exact ⟨rfl, rfl⟩

end Like

end Outbox

namespace Procedure

variable {σ ε δ α β : Type} {like : σ → σ → Prop}

def Alike (like : σ → σ → Prop) (p q : Procedure σ ε α) : Prop :=
  ∀ s t, like s t → (p s).value.1 = (q t).value.1 ∧ like (p s).value.2 (q t).value.2

section Alike

theorem alike_pure (a : α) : Alike like (pure a : Procedure σ ε α) (pure a) := fun _ _ h => ⟨rfl, h⟩

theorem alike_throw (e : ε) : Alike like (throw e : Procedure σ ε α) (throw e) := fun _ _ h => ⟨rfl, h⟩

theorem alike_log (line : Logged Log.Line α) : Alike like (log line : Procedure σ ε α) (log line) :=
  fun _ _ h => ⟨rfl, h⟩

theorem alike_ofExcept (result : Except ε α) :
    Alike like (ofExcept result : Procedure σ ε α) (ofExcept result) := fun _ _ h => ⟨rfl, h⟩

theorem alike_set {s t : σ} (h : like s t) : Alike like (set s : Procedure σ ε PUnit) (set t) :=
  fun _ _ _ => ⟨rfl, h⟩

theorem alike_modify {f g : σ → σ} (h : ∀ s t, like s t → like (f s) (g t)) :
    Alike like (modify f : Procedure σ ε PUnit) (modify g) := fun s t hst => ⟨rfl, h s t hst⟩

theorem Alike.bind {p q : Procedure σ ε α} {f g : α → Procedure σ ε β} (hp : Alike like p q)
    (hf : ∀ a, Alike like (f a) (g a)) : Alike like (p >>= f) (q >>= g) := by
  intro s t hst
  obtain ⟨hresult, hstate⟩ := hp s t hst
  rw [bind_value, bind_value]
  revert hresult hstate
  rcases (p s).value with ⟨result, s'⟩
  rcases (q t).value with ⟨_, t'⟩
  rintro rfl hstate
  cases result with
  | ok a => exact hf a s' t' hstate
  | error e => exact ⟨rfl, hstate⟩

-- What goes on unless there is a reason to fail.
theorem Alike.unless {c : Prop} {_ : Decidable c} {e : ε} {p q : Procedure σ ε α} (h : Alike like p q) :
    Alike like (if c then (throw e : Procedure σ ε PUnit) >>= fun _ => p else p)
      (if c then (throw e : Procedure σ ε PUnit) >>= fun _ => q else q) := by
  split
  · exact (alike_throw e).bind fun _ => h
  · exact h

-- What goes on with the states that it has looked at.
theorem alike_get {f g : σ → Procedure σ ε α} (hf : ∀ s t, like s t → Alike like (f s) (g t)) :
    Alike like (get >>= f) (get >>= g) := fun s t hst => hf s t hst s t hst

theorem Alike.outcome {p q : Procedure σ δ α} (h : Alike like p q) :
    Alike like (outcome p : Procedure σ ε (Except δ α)) (outcome q) := fun s t hst =>
  ⟨congrArg Except.ok (h s t hst).1, (h s t hst).2⟩

theorem Alike.orWarn {p q : Procedure σ δ Unit} (h : Alike like p q) (warning : δ → String) :
    Alike like (orWarn warning p : Procedure σ ε Unit) (orWarn warning q) := by
  intro s t hst
  rw [orWarn_value, orWarn_value]
  exact ⟨rfl, (h s t hst).2⟩

end Alike

end Procedure

end SceneLink
