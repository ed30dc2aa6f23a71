import SceneLink.Proofs.Host.Grouping
import SceneLink.Proofs.Session.Basic

namespace SceneLink

-- Batches, none of them empty, that make up the operations in order.
structure Cuts (ops : List Operation) (batches : List (List Operation)) : Prop where
  flatten : batches.flatten = ops
  nonempty : ∀ batch ∈ batches, batch ≠ []

theorem Cuts.eq_nil {batches : List (List Operation)} (h : Cuts [] batches) : batches = [] := by
  cases batches with
  | nil => rfl
  | cons batch rest =>
      have hnil := (List.append_eq_nil_iff.1 h.flatten).1
      exact absurd hnil (h.nonempty batch List.mem_cons_self)

namespace Host

def receiveAll (h : Host) (raws : List String) : Host :=
  raws.foldl (fun h raw => (h.receive raw).value.2) h

theorem receive_encode {batch : List Operation} (hfits : ∀ op ∈ batch, op.Fits) (h : Host) :
    (h.receive (Batch.encode batch)).value.2 =
      (h.after ((batch.map Operation.wire).map .apply)).perform .flush := by
  rw [Session.receive_value, Session.deedsOf_ok (congrArg Logged.value (Batch.decode_encode hfits)),
    after_append]
  rfl

theorem receiveAll_like {batches : List (List Operation)} (hfits : ∀ op ∈ batches.flatten, op.Fits)
    (h : Host) : (h.receiveAll (batches.map Batch.encode)).Like
      (h.after ((batches.flatten.map Operation.wire).map .apply)) := by
  induction batches generalizing h with
  | nil => exact .refl h
  | cons batch rest ih =>
      have hbatch : ∀ op ∈ batch, op.Fits := fun op ho => hfits op (List.mem_append_left _ ho)
      have hrest := ih fun op ho => hfits op (List.mem_append_right _ ho)
      have hsplit : h.after (((batch :: rest).flatten.map Operation.wire).map .apply) =
          (h.after ((batch.map Operation.wire).map .apply)).after
            ((rest.flatten.map Operation.wire).map .apply) := by
        rw [List.flatten_cons, List.map_append, List.map_append, after_append]
      have hfirst : h.receiveAll ((batch :: rest).map Batch.encode) =
          receiveAll ((h.after ((batch.map Operation.wire).map .apply)).perform .flush)
            (rest.map Batch.encode) := by
        rw [← receive_encode hbatch]
        rfl
      rw [hfirst, hsplit]
      exact (hrest _).trans ((like_flush _).applyEach _)

theorem flush_spec (h : Host) :
    (h.perform .flush).outbox.pending = [] ∧ (h.perform .flush).outbox.scheduled = false := by
  change (flush h).value.2.outbox.pending = [] ∧ (flush h).value.2.outbox.scheduled = false
  unfold flush
  rw [Procedure.onPart_value]
  exact h.outbox.flushed_spec

theorem receiveAll_flushed {batches : List (List Operation)} (hne : batches ≠ [])
    (hfits : ∀ op ∈ batches.flatten, op.Fits) (h : Host) :
    (h.receiveAll (batches.map Batch.encode)).outbox.pending = [] ∧
      (h.receiveAll (batches.map Batch.encode)).outbox.scheduled = false := by
  have hlast : ∀ op ∈ batches.getLast hne, op.Fits := fun op ho =>
    hfits op (List.mem_flatten.2 ⟨_, List.getLast_mem hne, ho⟩)
  have hsplit : h.receiveAll (batches.map Batch.encode) =
      ((h.receiveAll (batches.dropLast.map Batch.encode)).receive
        (Batch.encode (batches.getLast hne))).value.2 := by
    have hmap : batches.map Batch.encode =
        batches.dropLast.map Batch.encode ++ [Batch.encode (batches.getLast hne)] := by
      rw [← List.map_singleton (f := Batch.encode), ← List.map_append, List.dropLast_concat_getLast]
    rw [hmap]
    exact List.foldl_append
  rw [hsplit, receive_encode hlast]
  exact flush_spec _

end Host

namespace Caller

variable {H N : Type}

def receiveAll (run : Runner H N) : List String → Turn H N Unit
  | [] => return
  | raw :: raws => do
    receive run raw
    receiveAll run raws

-- Turns that leave the same state and in which the same is done.
def Same (p q : Turn H N Unit) : Prop :=
  ∀ c, (p c).value = (q c).value ∧ acts (p c).output = acts (q c).output

theorem Same.symm {p q : Turn H N Unit} (h : Same p q) : Same q p := fun c =>
  ⟨(h c).1.symm, (h c).2.symm⟩

theorem Same.bind {p q p' q' : Turn H N Unit} (h : Same p q) (h' : Same p' q') :
    Same (p >>= fun _ => p') (q >>= fun _ => q') := by
  intro c
  obtain ⟨hvalue, hacts⟩ := h c
  obtain ⟨hvalue', hacts'⟩ := h' (p c).value.2
  rw [bind_eq, bind_eq, acts_append, acts_append, hacts, hacts', ← hvalue]
  exact ⟨hvalue', rfl⟩

theorem distributeAll_append (run : Runner H N) (ops more : List Operation) :
    distributeAll run (ops ++ more) = distributeAll run ops >>= fun _ => distributeAll run more := by
  induction ops with
  | nil => rfl
  | cons op ops ih => rw [List.cons_append, distributeAll, distributeAll, ih, bind_assoc]

-- A batch is routed operation by operation; besides, it may be noted in the log.
theorem receive_same (run : Runner H N) (raw : String) :
    Same (receive run raw) (distributeAll run (Session.opsOf raw)) := by
  have hops {lines : List Log.Line} {ops : List Operation} {c : Caller H} :
      acts (lines.map .line ++ (distributeAll run ops c).output) = acts (distributeAll run ops c).output := by
    rw [acts_append, acts_lines, List.nil_append]
  have hnone {lines : List Log.Line} {line : Log.Line} :
      acts (lines.map .line ++ [.line line] : List (Happening H N)) = [] := by
    rw [acts_append, acts_lines]
    rfl
  intro c
  unfold receive Session.opsOf
  rw [bind_get]
  rcases Batch.decode raw with ⟨result, lines⟩
  cases result with
  | ok ops => cases c.settings.logWire <;> exact ⟨rfl, hops⟩
  | error e => cases c.settings.logWire <;> exact ⟨rfl, hnone⟩

theorem receiveAll_same (run : Runner H N) {batches : List (List Operation)}
    (hfits : ∀ op ∈ batches.flatten, op.Fits) :
    Same (receiveAll run (batches.map Batch.encode))
      (distributeAll run (batches.flatten.map Operation.wire)) := by
  induction batches with
  | nil => exact fun _ => ⟨rfl, rfl⟩
  | cons batch rest ih =>
      rw [List.flatten_cons, List.map_append, distributeAll_append]
      have hbatch := receive_same run (Batch.encode batch)
      rw [Session.opsOf_encode fun op ho => hfits op (List.mem_append_left _ ho)] at hbatch
      exact hbatch.bind (ih fun op ho => hfits op (List.mem_append_right _ ho))

end Caller

-- However operations are cut into batches, equal hosts that receive them end up equal once the
-- transport has taken what they sent, which is the same operation by operation; and equal callers
-- end up equal, with the same handlers run in the same order.
theorem batches_without_bounds {ops : List Operation} {batches others : List (List Operation)}
    (hfits : ∀ op ∈ ops, op.Fits) (hbatches : Cuts ops batches) (hothers : Cuts ops others) :
    (∀ h : Host,
      (h.receiveAll (batches.map Batch.encode)).collect.2 = (h.receiveAll (others.map Batch.encode)).collect.2 ∧
      (h.receiveAll (batches.map Batch.encode)).outbox.handed.flatMap Handover.split =
        (h.receiveAll (others.map Batch.encode)).outbox.handed.flatMap Handover.split) ∧
    ∀ (H N : Type) (run : Caller.Runner H N) (c : Caller H),
      (Caller.receiveAll run (batches.map Batch.encode) c).value =
        (Caller.receiveAll run (others.map Batch.encode) c).value ∧
      Caller.acts (Caller.receiveAll run (batches.map Batch.encode) c).output =
        Caller.acts (Caller.receiveAll run (others.map Batch.encode) c).output := by
  obtain ⟨rfl, hbatches⟩ := hbatches
  have hfits' : ∀ op ∈ others.flatten, op.Fits := hothers.flatten ▸ hfits
  constructor
  · intro h
    have hlike := Host.receiveAll_like hfits' h
    rw [hothers.flatten] at hlike
    have hsame := (Host.receiveAll_like hfits h).trans hlike.symm
    by_cases hne : batches = []
    · have hnone : others = [] := Cuts.eq_nil (by rwa [hne] at hothers)
      rw [hne, hnone]
      exact ⟨rfl, rfl⟩
    · have hne' : others ≠ [] := by
        intro hnone
        rw [hnone] at hothers
        exact hne (Cuts.eq_nil ⟨hothers.flatten.symm, hbatches⟩)
      exact hsame.eq_of_flushed (Host.receiveAll_flushed hne hfits h) (Host.receiveAll_flushed hne' hfits' h)
  · intro H N run c
    have hsame := Caller.receiveAll_same run hfits c
    have hsame' := Caller.receiveAll_same run hfits' c
    rw [hothers.flatten] at hsame'
    exact ⟨hsame.1.trans hsame'.1.symm, hsame.2.trans hsame'.2.symm⟩

section Three

-- The operation in the middle lacks its identifier.
def three : List Operation := [.started, { event := .update }, .callback "Callback_0" (.bool true)]

def oneAndTwo : List (List Operation) := [three.take 1, three.drop 1]

def twoAndOne : List (List Operation) := [three.take 2, three.drop 2]

-- A caller that waits for one answer, and then writes to the log of the host.
def waiting : Caller Unit := { callbacks := [("Callback_0", .once ())] }

def replying : Caller.Runner Unit Unit :=
  Caller.runWithin (fun _ _ => .note () (.request (.log "answered") fun _ => .done)) 1

theorem batches_without_bounds_three :
    (Host.receiveAll {} (oneAndTwo.map Batch.encode)).collect.2 =
        (Host.receiveAll {} (twoAndOne.map Batch.encode)).collect.2 ∧
      (Caller.receiveAll replying (oneAndTwo.map Batch.encode) waiting).value =
        (Caller.receiveAll replying (twoAndOne.map Batch.encode) waiting).value := by
  have hone : Cuts three oneAndTwo := ⟨rfl, by simp [oneAndTwo, three]⟩
  have htwo : Cuts three twoAndOne := ⟨rfl, by simp [twoAndOne, three]⟩
  have hbounds := batches_without_bounds (by decide) hone htwo
  exact ⟨(hbounds.1 {}).1, (hbounds.2 Unit Unit replying waiting).1⟩

end Three

end SceneLink
