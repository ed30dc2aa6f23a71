import SceneLink.Proofs.Caller.Hearing
import SceneLink.Proofs.Operation.Batch

namespace SceneLink

namespace ObjectTable

variable {H : Type}

def stateOf? (table : ObjectTable H) (id : String) : Option Lifecycle :=
  (table.get? id).map (·.state)

theorem get?_setState (table : ObjectTable H) (id other : String) (state : Lifecycle) :
    (table.setState id state).get? other =
      if other = id then (table.get? id).map fun object => { object with state := state }
      else table.get? other := by
  unfold setState
  cases hget : table.get? id with
  | none =>
      dsimp only
      split
      · next heq => rw [heq, hget]; rfl
      · rfl
  | some object => exact Dict.get?_insert _ _ _ _

theorem get?_setInterests (table : ObjectTable H) (id other : String)
    (interests : Dict String (Interest H)) :
    (table.setInterests id interests).get? other =
      if other = id then (table.get? id).map fun object => { object with interests := interests }
      else table.get? other := by
  unfold setInterests
  cases hget : table.get? id with
  | none =>
      dsimp only
      split
      · next heq => rw [heq, hget]; rfl
      · rfl
  | some object => exact Dict.get?_insert _ _ _ _

theorem stateOf?_setState (table : ObjectTable H) (id other : String) (state : Lifecycle) :
    (table.setState id state).stateOf? other =
      if other = id then (table.stateOf? id).map fun _ => state else table.stateOf? other := by
  unfold stateOf?
  rw [get?_setState]
  split
  · rw [Option.map_map, Option.map_map]
    rfl
  · rfl

theorem stateOf?_setInterests (table : ObjectTable H) (id other : String)
    (interests : Dict String (Interest H)) :
    (table.setInterests id interests).stateOf? other = table.stateOf? other := by
  unfold stateOf?
  rw [get?_setInterests]
  split
  · next heq =>
    rw [heq, Option.map_map]
    rfl
  · rfl

theorem stateOf?_insert (table : ObjectTable H) (id other : String) (object : TrackedObject H) :
    stateOf? (table.insert id object) other =
      if other = id then some object.state else table.stateOf? other := by
  unfold stateOf?
  rw [Dict.get?_insert]
  split <;> rfl

theorem stateOf?_erase (table : ObjectTable H) (id other : String) :
    stateOf? (table.erase id) other = if other = id then none else table.stateOf? other := by
  unfold stateOf?
  rw [Dict.get?_erase]
  split <;> rfl

section Interests

def interestsOf? (table : ObjectTable H) (id : String) : Option (Dict String (Interest H)) :=
  (table.get? id).map (·.interests)

theorem interestsOf?_setState (table : ObjectTable H) (id other : String) (state : Lifecycle) :
    (table.setState id state).interestsOf? other = table.interestsOf? other := by
  unfold interestsOf?
  rw [get?_setState]
  split
  · next heq =>
    rw [heq, Option.map_map]
    rfl
  · rfl

theorem interestsOf?_setInterests (table : ObjectTable H) (id other : String)
    (interests : Dict String (Interest H)) :
    (table.setInterests id interests).interestsOf? other =
      if other = id then (table.interestsOf? id).map fun _ => interests
      else table.interestsOf? other := by
  unfold interestsOf?
  rw [get?_setInterests]
  split
  · rw [Option.map_map, Option.map_map]
    rfl
  · rfl

theorem interestsOf?_insert (table : ObjectTable H) (id other : String) (object : TrackedObject H) :
    interestsOf? (table.insert id object) other =
      if other = id then some object.interests else table.interestsOf? other := by
  unfold interestsOf?
  rw [Dict.get?_insert]
  split <;> rfl

theorem interestsOf?_erase (table : ObjectTable H) (id other : String) :
    interestsOf? (table.erase id) other = if other = id then none else table.interestsOf? other := by
  unfold interestsOf?
  rw [Dict.get?_erase]
  split <;> rfl

end Interests

theorem isLive_iff (table : ObjectTable H) (id : String) :
    table.isLive id = true ↔
      table.stateOf? id = some .requested ∨ table.stateOf? id = some .active := by
  unfold isLive stateOf?
  cases table.get? id with
  | none => simp
  | some object =>
      obtain ⟨kind, state, interests⟩ := object
      cases state <;> simp [Lifecycle.isLive]

end ObjectTable

def Request.concernsObjects {H : Type} : Request H → Bool
  | .create .. | .destroy .. | .updateInterests .. => true
  | _ => false

def Event.sparesObjects : Event → Bool
  | .update | .query | .animate | .setGlobals | .log => true
  | _ => false

theorem Event.ne_of_sparesObjects {event : Event} (h : event.sparesObjects = true) :
    event ≠ .create ∧ event ≠ .destroy ∧ event ≠ .updateInterests := by
  cases event <;> simp_all [sparesObjects]

theorem Event.settled_of_sparesObjects {event : Event} (h : event.sparesObjects = true) :
    event.Settled := by
  cases event with
  | custom name => cases h
  | _ => rfl

namespace Caller

variable {H : Type}

theorem after_eq (r : Response H) : ∃ outbox, r.after = { r.caller with outbox := outbox } := by
  unfold Response.after
  split
  · exact ⟨_, rfl⟩
  · exact ⟨_, rfl⟩

theorem after_objects (r : Response H) : r.after.objects = r.caller.objects := by
  obtain ⟨outbox, h⟩ := after_eq r
  rw [h]

theorem after_objectIds (r : Response H) : r.after.objectIds = r.caller.objectIds := by
  obtain ⟨outbox, h⟩ := after_eq r
  rw [h]

theorem sent_whenLive {c d : Caller H} {id : String} {reply : Reply} {op o : Operation}
    (h : o ∈ (c.whenLive id ⟨reply, d, some op⟩).sent) : o = op := by
  unfold whenLive at h
  split at h
  · exact (Option.some.inj h).symm
  · cases h

structure SparesObjects (c : Caller H) (r : Response H) : Prop where
  objects : r.after.objects = c.objects
  objectIds : r.after.objectIds = c.objectIds
  sent : ∀ op ∈ r.sent, op.event.sparesObjects = true

theorem SparesObjects.whenLive {c : Caller H} {r : Response H} (h : c.SparesObjects r) (id : String) :
    c.SparesObjects (c.whenLive id r) := by
  unfold Caller.whenLive
  split
  · exact h
  · exact ⟨rfl, rfl, fun _ hop => nomatch hop⟩

theorem sparesObjects_sent {c d : Caller H} (hobjects : d.objects = c.objects) (hids : d.objectIds = c.objectIds)
    (reply : Reply) {op : Operation} (hop : op.event.sparesObjects = true) :
    c.SparesObjects ⟨reply, d, some op⟩ where
  objects := (after_objects _).trans hobjects
  objectIds := (after_objectIds _).trans hids
  sent := fun _ hsent => Option.some.inj hsent ▸ hop

-- The other requests leave the table alone, and so does what they send.
theorem respond_other (c : Caller H) {request : Request H} (h : request.concernsObjects = false) :
    c.SparesObjects (c.respond request) := by
  have hquestion (id : String) (paths : Dict String Path) (handler : H) :
      c.SparesObjects (c.questioning id paths handler) := by
    refine .whenLive (sparesObjects_sent ?_ ?_ _ ?_) id <;> rfl
  cases request with
  | create => cases h
  | destroy => cases h
  | updateInterests => cases h
  | query id paths handler => exact hquestion id paths handler
  | queryPaths id pairs handler =>
      rw [respond_queryPaths]
      split
      · exact hquestion _ _ _
      · exact ⟨rfl, rfl, fun _ hop => nomatch hop⟩
  | update id assignments | animate id animations =>
      refine .whenLive (sparesObjects_sent ?_ ?_ _ ?_) id <;> rfl
  | setGlobals globals | log line =>
      refine sparesObjects_sent ?_ ?_ _ ?_ <;> rfl
  | _ => exact ⟨rfl, rfl, fun _ hop => nomatch hop⟩

section Hearing

variable (c : Caller H) (op : Operation) (id : String)

theorem onset_created {name : String} (hevent : op.event = .created) (hid : op.id = some name) :
    c.onset op = match c.objects.get? name with
      | some object =>
        if object.state = .requested then { c with objects := c.objects.setState name .active }
        else c
      | none => c := by
  obtain ⟨event, id, data⟩ := op
  dsimp only at hevent hid
  subst hevent hid
  rfl

theorem onset_objects (h : op.event ≠ .created ∨ op.id = none) :
    (c.onset op).objects = c.objects ∧ (c.onset op).objectIds = c.objectIds := by
  refine onset_cases c op (fun _ => ⟨rfl, rfl⟩) (fun _ _ _ => ⟨rfl, rfl⟩)
    (fun id hevent hid => ?_) ⟨rfl, rfl⟩
  simp [hevent, hid] at h

-- Only an object that waits for its creation is active from now on.
theorem stateOf?_onset : (c.onset op).objects.stateOf? id =
    if op.event = .created ∧ op.id = some id
    then (c.objects.stateOf? id).map fun state => if state = .requested then .active else state
    else c.objects.stateOf? id := by
  by_cases hevent : op.event = .created
  · cases hname : op.id with
    | none => rw [(c.onset_objects op (.inr hname)).1, if_neg (by simp)]
    | some name =>
        rw [onset_created c op hevent hname]
        by_cases heq : name = id
        · subst heq
          rw [if_pos ⟨hevent, rfl⟩]
          unfold ObjectTable.stateOf?
          cases hget : c.objects.get? name with
          | none =>
              dsimp only
              rw [hget]
              rfl
          | some object =>
              dsimp only
              split
              · next hstate =>
                dsimp only
                rw [ObjectTable.get?_setState, if_pos rfl, hget]
                simp [hstate]
              · next hstate => simp [hget, hstate]
        · rw [if_neg (by simp [heq])]
          split
          · split
            · exact (ObjectTable.stateOf?_setState _ _ _ _).trans (if_neg (Ne.symm heq))
            · rfl
          · rfl
  · rw [(c.onset_objects op (.inl hevent)).1, if_neg (fun h => hevent h.1)]

theorem interestsOf?_onset :
    (c.onset op).objects.interestsOf? id = c.objects.interestsOf? id := by
  refine onset_cases c op (fun _ => rfl) (fun _ _ _ => rfl) (fun _ _ _ => ?_) rfl
  exact ObjectTable.interestsOf?_setState _ _ _ _

theorem onset_objectIds : (c.onset op).objectIds = c.objectIds :=
  onset_cases c op (fun _ => rfl) (fun _ _ _ => rfl) (fun _ _ _ => rfl) rfl

theorem close_destroyed {name : String} (hevent : op.event = .destroyed) (hid : op.id = some name) :
    c.close op = { c with objects := c.objects.erase name } := by
  unfold close
  rw [hevent, hid]

theorem close_of_none (hid : op.id = none) : c.close op = c := by
  unfold close
  rw [hid]
  split
  · next h => cases h
  · rfl

theorem stateOf?_close : (c.close op).objects.stateOf? id =
    if op.event = .destroyed ∧ op.id = some id then none else c.objects.stateOf? id := by
  by_cases hevent : op.event = .destroyed
  · cases hname : op.id with
    | none => rw [c.close_of_none op hname, if_neg (by simp)]
    | some name =>
        rw [close_destroyed c op hevent hname]
        refine (ObjectTable.stateOf?_erase _ _ _).trans ?_
        by_cases heq : id = name
        · rw [if_pos heq, if_pos ⟨hevent, congrArg some heq.symm⟩]
        · rw [if_neg heq, if_neg (by simp [Ne.symm heq])]
  · rw [close_of_ne hevent, if_neg (fun h => hevent h.1)]

theorem interestsOf?_close : (c.close op).objects.interestsOf? id =
    if op.event = .destroyed ∧ op.id = some id then none else c.objects.interestsOf? id := by
  by_cases hevent : op.event = .destroyed
  · cases hname : op.id with
    | none => rw [c.close_of_none op hname, if_neg (by simp)]
    | some name =>
        rw [close_destroyed c op hevent hname]
        refine (ObjectTable.interestsOf?_erase _ _ _).trans ?_
        by_cases heq : id = name
        · rw [if_pos heq, if_pos ⟨hevent, congrArg some heq.symm⟩]
        · rw [if_neg heq, if_neg (by simp [Ne.symm heq])]
  · rw [close_of_ne hevent, if_neg (fun h => hevent h.1)]

theorem close_objectIds : (c.close op).objectIds = c.objectIds := by
  unfold close
  split <;> rfl

end Hearing

end Caller

end SceneLink
