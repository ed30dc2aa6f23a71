import SceneLink.Proofs.Session.Arrivals
import SceneLink.Proofs.Session.Queries

namespace SceneLink

structure Emission where
  earlier : List Deed
  id : String
  event : String
  extra : Dict String Json

def Emission.deed (e : Emission) : Deed := .emit e.id e.event e.extra

namespace Session

variable {H : Type} {s : Session H} {record : List (Arrival H)} {e : Emission}

def hostAt (s : Session H) (e : Emission) : Host := s.origin.after e.earlier

-- The event was raised in the session, it is not one of the protocol, and there was an interest in
-- it.
structure Raised (s : Session H) (e : Emission) : Prop where
  deeds : ∃ later, s.deeds = e.earlier ++ e.deed :: later
  custom : (Event.ofName e.event).isCustom = true
  heeded : (Host.emit e.id e.event e.extra (s.hostAt e)).value.1 = .ok true

def number (s : Session H) (e : Emission) : Nat := (s.said e.earlier).length

-- The event has arrived in its turn, and has run the handler that was registered for it when it
-- arrived, if there was one. What that received for the data that was sent is as `Reads` says.
def Delivered (s : Session H) (record : List (Arrival H)) (Reads : Json → Json → Prop) (e : Emission) :
    Prop :=
  ∃ results a, ((s.hostAt e).interestData e.id e.event).value = some results ∧
    record[s.number e]? = some a ∧ a.op.event = .custom e.event ∧ a.op.id = some e.id ∧
    match a.caller.objects.handler? e.id e.event with
    | some handler => ∃ data, Caller.runs a.output = [(handler, .event e.event e.id data)] ∧
        Reads (.record (e.extra.insertAll results)) data
    | none => Caller.runs a.output = []

section Delivery

theorem filterMap_legible {early late : List String} {op : Operation}
    (h : Legible (early ++ op.text :: late)) :
    ((early ++ op.text :: late).filterMap Operation.ofText?)[early.length]? = some op.wire := by
  obtain ⟨fitting, hfits, htext⟩ := h op.text (List.mem_append_right _ List.mem_cons_self)
  have hread : Operation.ofText? op.text = some op.wire := by
    rw [← htext, Operation.ofText?_text hfits, Operation.wire_eq_of_text_eq htext]
  have hearly : ∀ text ∈ early, (Operation.ofText? text).isSome = true := by
    intro text htext
    obtain ⟨fitting, hfits, rfl⟩ := h text (List.mem_append_left _ htext)
    rw [Operation.ofText?_text hfits]
    rfl
  have hlength : (early.filterMap Operation.ofText?).length = early.length :=
    List.filterMap_length_eq_length.2 hearly
  rw [List.filterMap_append, List.filterMap_cons_some hread, ← hlength, List.getElem?_append_right
    (Nat.le_refl _), Nat.sub_self]
  rfl

theorem drained (hs : s.Reachable) (hpending : s.host.outbox.pending = []) (hdown : s.down = []) :
    s.falling = [] := by
  unfold falling Outbox.texts
  rw [hs.handed.2, hpending, hdown]
  rfl

theorem Raised.said (hraised : s.Raised e) :
    ∃ results, ((s.hostAt e).interestData e.id e.event).value = some results ∧
      ∃ late, s.said s.deeds = s.said e.earlier ++
        (Operation.named e.event e.id (.record (e.extra.insertAll results))).text :: late := by
  obtain ⟨later, hdeeds⟩ := hraised.deeds
  obtain ⟨results, hresults, hadds⟩ := Host.adds_emit hraised.heeded
  refine ⟨results, hresults, ((s.hostAt e).perform e.deed).spoken later, ?_⟩
  have hspoken : (s.hostAt e).spoken (e.deed :: later) =
      (Operation.named e.event e.id (.record (e.extra.insertAll results))).text ::
        ((s.hostAt e).perform e.deed).spoken later := congrArg (· ++ _) hadds
  unfold Session.said
  rw [hdeeds, Host.spoken_append, ← List.append_assoc]
  exact congrArg (_ ++ ·) hspoken

theorem delivered (hs : Recorded s record) (hpending : s.host.outbox.pending = []) (hdown : s.down = [])
    (hraised : s.Raised e) : s.Delivered record (fun sent data => data = sent.reread) e := by
  obtain ⟨horder, hlegible⟩ := hs.conserved
  obtain ⟨results, hresults, late, hsaid⟩ := hraised.said
  rw [drained hs.reachable hpending hdown, List.append_nil, hsaid] at horder
  rw [hsaid] at hlegible
  have hop := filterMap_legible hlegible
  rw [← horder, List.getElem?_map] at hop
  obtain ⟨a, ha, hwire⟩ := Option.map_eq_some_iff.1 hop
  have hevent : a.op.event = .custom e.event := by
    rw [hwire, Operation.wire_event (Event.settled_ofName _)]
    exact Event.ofName_of_isCustom hraised.custom
  have hid : a.op.id = some e.id := by
    rw [hwire]
    rfl
  have hdata : a.op.data.getD .null = (Json.record (e.extra.insertAll results)).reread := by
    rw [hwire, Operation.wire_data]
    rfl
  have hruns := hs.dispatched a (List.mem_of_getElem? ha) e.event e.id hevent hid
  refine ⟨results, a, hresults, ha, hevent, hid, ?_⟩
  rw [hruns, hdata]
  cases a.caller.objects.handler? e.id e.event with
  | some handler => exact ⟨_, rfl, rfl⟩
  | none => rfl

theorem Delivered.mono {P Q : Json → Json → Prop} (h : s.Delivered record P e)
    (hPQ : ∀ sent data, P sent data → Q sent data) : s.Delivered record Q e := by
  obtain ⟨results, a, hresults, ha, hevent, hid, hruns⟩ := h
  refine ⟨results, a, hresults, ha, hevent, hid, ?_⟩
  cases hhandler : a.caller.objects.handler? e.id e.event with
  | some handler =>
      rw [hhandler] at hruns
      obtain ⟨data, hrun, hreads⟩ := hruns
      exact ⟨data, hrun, hPQ _ _ hreads⟩
  | none =>
      rw [hhandler] at hruns
      exact hruns

end Delivery

section Chimed

end Chimed

end Session

end SceneLink
