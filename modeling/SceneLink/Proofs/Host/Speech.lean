import SceneLink.Proofs.Host.Deeds

namespace SceneLink.Host

def adds (h : Host) (deed : Deed) : List String :=
  (h.perform deed).outbox.texts.drop h.outbox.texts.length

def spoken (h : Host) : List Deed → List String
  | [] => []
  | deed :: deeds => h.adds deed ++ (h.perform deed).spoken deeds

variable {h : Host} {deed : Deed}

theorem spoken_append (h : Host) (deeds more : List Deed) :
    h.spoken (deeds ++ more) = h.spoken deeds ++ (h.after deeds).spoken more := by
  induction deeds generalizing h with
  | nil => rfl
  | cons deed deeds ih =>
      rw [List.cons_append, spoken, spoken, ih, List.append_assoc]
      rfl

theorem adds_eq {added : List String}
    (htexts : (h.perform deed).outbox.texts = h.outbox.texts ++ added) : h.adds deed = added := by
  unfold adds
  rw [htexts, List.drop_left]

theorem adds_collect (h : Host) : h.adds .collect = [] := by
  refine List.drop_eq_nil_of_le ?_
  change h.outbox.pending.length ≤ (h.outbox.handed.flatMap (·.operations) ++ h.outbox.pending).length
  rw [List.length_append]
  exact Nat.le_add_left _ _

theorem spoken_collect (h : Host) : h.spoken [.collect] = [] := by
  rw [spoken, adds_collect]
  rfl

theorem perform_texts (hl : h.outbox.Lossless) (hdeed : deed.IsOwn ∨ ∃ op, deed = .apply op) :
    (h.perform deed).outbox.texts = h.outbox.texts ++ h.adds deed ∧
      (h.perform deed).outbox.Lossless := by
  obtain ⟨ops, htexts, hlast⟩ : ∃ ops : List Operation,
      (h.perform deed).outbox.texts = h.outbox.texts ++ ops.map Operation.text ∧
        (h.perform deed).outbox.Lossless := by
    rcases hdeed with hown | ⟨op, rfl⟩
    · obtain ⟨ops, hdone⟩ := own_spec hl hown
      exact ⟨ops, hdone.texts, hdone.lossless⟩
    · obtain ⟨ops, happlied⟩ := h.apply_spec hl op
      rw [perform_apply, happlied.outbox]
      exact ⟨ops, Outbox.texts_posts _ ops, Outbox.lossless_posts hl ops⟩
  rw [adds_eq htexts]
  exact ⟨htexts, hlast⟩

theorem after_texts {deeds : List Deed} (hl : h.outbox.Lossless)
    (hdeeds : ∀ deed ∈ deeds, deed.IsOwn ∨ ∃ op, deed = .apply op) :
    (h.after deeds).outbox.texts = h.outbox.texts ++ h.spoken deeds := by
  induction deeds generalizing h with
  | nil => exact (List.append_nil _).symm
  | cons deed deeds ih =>
      obtain ⟨htexts, hnext⟩ := perform_texts hl (hdeeds deed List.mem_cons_self)
      have hrest := ih hnext fun other hother => hdeeds other (List.mem_cons_of_mem _ hother)
      refine hrest.trans ?_
      rw [htexts, spoken, List.append_assoc]

-- An event that somebody has an interest in is said with the results of the interest's query.
theorem adds_emit {id event : String} {extra : Dict String Json}
    (hraised : (emit id event extra h).value.1 = .ok true) :
    ∃ results, (h.interestData id event).value = some results ∧
      h.adds (.emit id event extra) =
        [(Operation.named event id (.record (extra.insertAll results))).text] := by
  have hadds {op : Operation} (hafter : (emit id event extra h).value.2 = h.posted op) :
      h.adds (.emit id event extra) = [op.text] := by
    refine adds_eq ?_
    change (emit id event extra h).value.2.outbox.texts = _
    rw [hafter]
    exact Outbox.texts_posted _ op
  revert hraised hadds
  unfold emit
  rw [Procedure.bind_value, Procedure.get_value]
  dsimp only
  rw [Procedure.bind_value, Procedure.ofExcept_value]
  cases h.requireObject id with
  | error e => exact fun hraised => nomatch hraised
  | ok handle =>
      dsimp only
      rw [Procedure.bind_value, Procedure.log_value]
      dsimp only
      cases (h.interestData id event).value with
      | none => exact fun hraised => nomatch hraised
      | some results =>
          intro hraised hadds
          refine ⟨results, rfl, hadds ?_⟩
          dsimp only at hraised ⊢
          rw [Procedure.bind_value] at hraised ⊢
          have hstate := send_state h (Operation.named event id (.record (extra.insertAll results)))
          revert hraised hstate
          generalize (send _ h).value = out
          rcases out with ⟨result, k⟩
          intro hraised hstate
          cases result with
          | ok u => exact hstate
          | error e => exact hstate

end SceneLink.Host
