import SceneLink.Proofs.Outcome
import SceneLink.Proofs.Scene.Basic

namespace SceneLink

-- A component keeps none of its events.
def Object.received? : Object → Option (List String)
  | .entity e => some e.receivedEvents
  | .component _ => none

namespace Object

variable {object changed : Object}

private theorem received?_setMember {found : Node → String} {name : String} {value : Node}
    (hset : object.setMember found name value = .ok changed) : changed.received? = object.received? := by
  cases object with
  | component c =>
      obtain ⟨d, -, rfl⟩ := ok_of_map hset
      rfl
  | entity e =>
      obtain ⟨d, hd, rfl⟩ := ok_of_map hset
      change some d.receivedEvents = some e.receivedEvents
      unfold Entity.setMember at hd
      split at hd
      any_goals cases hd
      all_goals
        obtain ⟨_, -, rfl⟩ := ok_of_map hd
        rfl

private theorem received?_setKey {found : Node → String} {key : String} {value : Node}
    (hset : object.setKey found key value = .ok changed) : changed.received? = object.received? := by
  cases object with
  | entity e => cases hset
  | component c =>
      obtain ⟨d, -, rfl⟩ := ok_of_map hset
      rfl

private theorem receivedEvents_translateBy (e : Entity) (x y z : Json) :
    (e.translateBy x y z).target.receivedEvents = e.receivedEvents := by
  unfold Entity.translateBy
  dsimp only
  split
  · rfl
  · split
    · rfl
    · split <;> rfl

private theorem received?_invoke {method : String} {args : List Json} {called : Called Object}
    (hcalled : object.invoke? method args = some called) : called.target.received? = object.received? := by
  cases object with
  | component c => cases hcalled
  | entity e =>
      obtain ⟨called, hinvoke, rfl⟩ := Option.map_eq_some_iff.1 hcalled
      change some called.target.receivedEvents = some e.receivedEvents
      unfold Entity.invoke? at hinvoke
      split at hinvoke
      · cases hinvoke
        unfold Entity.setActive
        split <;> rfl
      · cases hinvoke
        unfold Entity.translate
        split
        · rw [receivedEvents_translateBy]
        · rfl
      · cases hinvoke
        rfl
      · cases hinvoke

private theorem received?_receive (object : Object) (events : List String) :
    (events.foldl Object.receive object).received? = object.received?.map (· ++ events) := by
  induction events generalizing object with
  | nil => cases object <;> simp [received?]
  | cons event events ih =>
      rw [List.foldl_cons, ih]
      cases object <;> simp [received?, receive]

end Object

namespace Scene

def received? (s : Scene) (h : Handle) : Option (List String) := s.objects[h]?.bind Object.received?

-- Nothing is received between two scenes, and nobody begins to use an object or ceases to.
structure Silent (s t : Scene) : Prop where
  received : ∀ h, t.received? h = s.received? h
  uses : t.uses = s.uses
  length : t.objects.length = s.objects.length

section Changes

variable {s t u : Scene} {h child : Handle} {object changed : Object}

theorem Silent.refl (s : Scene) : Silent s s := ⟨fun _ => rfl, rfl, rfl⟩

theorem Silent.trans (hst : Silent s t) (htu : Silent t u) : Silent s u where
  received h := (htu.received h).trans (hst.received h)
  uses := htu.uses.trans hst.uses
  length := htu.length.trans hst.length

theorem canWrite_of_uses (huses : t.uses = s.uses) (h : Handle) : t.canWrite h = s.canWrite h := by
  unfold canWrite
  rw [huses]

private theorem received?_put (hlt : h < s.objects.length) (changed : Object) (other : Handle) :
    (s.put h changed).received? other = if other = h then changed.received? else s.received? other := by
  unfold received?
  rw [objects_put, if_pos hlt]
  by_cases hother : other = h
  · rw [if_pos hother, if_pos hother.symm]
    rfl
  · rw [if_neg hother, if_neg (Ne.symm hother)]

theorem received?_of_get (hold : s.objects[h]? = some object) : s.received? h = object.received? := by
  unfold received?
  rw [hold]
  rfl

theorem silent_put (hold : s.objects[h]? = some object) (hsame : changed.received? = object.received?) :
    Silent s (s.put h changed) := by
  obtain ⟨hlt, -⟩ := List.getElem?_eq_some_iff.1 hold
  refine ⟨fun other => ?_, rfl, List.length_set⟩
  rw [received?_put hlt]
  split
  · next heq => rw [heq, received?_of_get hold, hsame]
  · rfl

theorem silent_modify {change : (Node → String) → Object → Except AccessError Object}
    (hchange : ∀ found object changed, change found object = .ok changed →
      changed.received? = object.received?) (hmodify : s.modify h change = .ok t) : Silent s t := by
  obtain ⟨object, changed, -, hold, hchanged, rfl⟩ := modify_eq_ok hmodify
  exact silent_put hold (hchange _ _ _ hchanged)

theorem silent_setMember {name : String} {value : Node} (hset : s.setMember h name value = .ok t) :
    Silent s t :=
  silent_modify (fun _ _ _ => Object.received?_setMember) hset

theorem silent_setKey {key : String} {value : Node} (hset : s.setKey h key value = .ok t) : Silent s t :=
  silent_modify (fun _ _ _ => Object.received?_setKey) hset

theorem silent_call (s : Scene) (h : Handle) (method : String) (args : List Json) :
    Silent s (s.call h method args).scene := by
  unfold call
  cases hobject : s.writable h with
  | error e => exact .refl s
  | ok object =>
      dsimp only
      cases hcalled : object.invoke? method args with
      | none => exact .refl s
      | some called => exact silent_put (writable_eq_ok.1 hobject).2 (Object.received?_invoke hcalled)

theorem silent_addComponent {component : Handle} (hadd : s.addComponent h component = .ok t) :
    Silent s t := by
  refine silent_modify (fun found object changed hchange => ?_) hadd
  cases object with
  | component c => cases hchange
  | entity e =>
      cases hchange
      rfl

theorem silent_rebase {origin : Vec3} (hrebase : s.rebase child origin = .ok t) : Silent s t := by
  unfold rebase at hrebase
  obtain ⟨object, -, hrebase⟩ := ok_of_bind hrebase
  split at hrebase
  · cases hrebase
    exact .refl s
  · obtain ⟨world, -, hset⟩ := ok_of_bind hrebase
    exact silent_setMember hset

-- While the child is moved, the entity that it is to hang below counts as in use, but not any longer.
theorem silent_addChild {stays : Bool} (hadd : s.addChild h child stays = .ok t) : Silent s t := by
  unfold addChild at hadd
  obtain ⟨object, hobject, hadd⟩ := ok_of_bind hadd
  obtain ⟨-, hold⟩ := writable_eq_ok.1 hobject
  cases object with
  | component c => cases hadd
  | entity e =>
      cases stays with
      | false =>
          cases hadd
          exact silent_put hold rfl
      | true =>
          obtain ⟨moved, hmoved, hadd⟩ := ok_of_bind hadd
          cases hadd
          have hsilent := silent_rebase hmoved
          have hlength : moved.objects.length = s.objects.length := hsilent.length
          obtain ⟨hlt, -⟩ := List.getElem?_eq_some_iff.1 hold
          have hthere : h < moved.objects.length := hlength ▸ hlt
          refine ⟨fun other => ?_, rfl, List.length_set.trans hlength⟩
          rw [received?_put (s := { s with objects := moved.objects }) hthere]
          split
          · next heq =>
            rw [heq, received?_of_get hold]
            rfl
          · exact hsilent.received other

def delivered (s : Scene) (h : Handle) (events : List String) : Scene :=
  match s.deliver h events with
  | .ok t => t
  | .error _ => s

theorem uses_delivered (s : Scene) (h : Handle) (events : List String) :
    (s.delivered h events).uses = s.uses := by
  unfold delivered
  split
  · next t hdeliver =>
    obtain ⟨_, _, -, -, -, rfl⟩ := modify_eq_ok hdeliver
    rfl
  · rfl

-- All events of a delivery are received, or none of them while someone uses the object.
theorem received?_delivered (s : Scene) (h : Handle) (events : List String) :
    (s.delivered h events).received? h =
      (s.received? h).map (· ++ if s.canWrite h then events else []) := by
  unfold delivered
  cases hdeliver : s.deliver h events with
  | ok t =>
      obtain ⟨object, changed, hwrite, hold, hchanged, rfl⟩ := modify_eq_ok hdeliver
      cases hchanged
      obtain ⟨hlt, -⟩ := List.getElem?_eq_some_iff.1 hold
      dsimp only
      rw [received?_put hlt, if_pos rfl, Object.received?_receive, received?_of_get hold, if_pos hwrite]
  | error e =>
      dsimp only
      cases hwrite : s.canWrite h with
      | false => cases s.received? h <;> simp
      | true =>
          unfold received?
          cases hold : s.objects[h]? with
          | none => rfl
          | some object =>
              unfold deliver modify at hdeliver
              rw [writable_eq_ok.2 ⟨hwrite, hold⟩] at hdeliver
              cases hdeliver

-- What happens in silence between two deliveries takes nothing away from the first one.
theorem received?_delivered_twice {before after : List String} (hst : Silent (s.delivered h before) t) :
    (t.delivered h after).received? h =
      (s.received? h).map (· ++ if s.canWrite h then before ++ after else []) := by
  have hwrite : t.canWrite h = s.canWrite h := canWrite_of_uses (hst.uses.trans (uses_delivered s h before)) h
  rw [received?_delivered, hst.received, received?_delivered, hwrite]
  cases s.received? h with
  | none => rfl
  | some events =>
      cases s.canWrite h <;> simp

end Changes

section Growth

variable {s t u : Scene} {h : Handle}

-- Nothing is received between two scenes, but there may be new objects, which have received nothing
-- yet.
structure Unheard (s t : Scene) : Prop where
  received : ∀ h, t.received? h = s.received? h ∨ s.received? h = none ∧ t.received? h = some []
  uses : t.uses = s.uses
  length : s.objects.length ≤ t.objects.length

theorem Silent.unheard (hst : Silent s t) : Unheard s t :=
  ⟨fun h => .inl (hst.received h), hst.uses, Nat.le_of_eq hst.length.symm⟩

theorem Unheard.trans (hst : Unheard s t) (htu : Unheard t u) : Unheard s u := by
  refine ⟨fun h => ?_, htu.uses.trans hst.uses, Nat.le_trans hst.length htu.length⟩
  rcases htu.received h with hsame | ⟨hnone, hnew⟩
  · rw [hsame]
    exact hst.received h
  · rcases hst.received h with hsame | ⟨-, hbefore⟩
    · exact .inr ⟨hsame.symm.trans hnone, hnew⟩
    · rw [hbefore] at hnone
      cases hnone

theorem Unheard.eq_getD (hst : Unheard s t) {events : List String} (hreceived : t.received? h = some events) :
    events = (s.received? h).getD [] := by
  rcases hst.received h with hsame | ⟨hnone, hnew⟩
  · rw [← hsame, hreceived]
    rfl
  · rw [hnew] at hreceived
    rw [hnone]
    cases hreceived
    rfl

theorem canWrite_of_beyond (huses : ∀ use ∈ s.uses, use.1 < s.objects.length)
    (hbeyond : s.objects.length ≤ h) : s.canWrite h = true := by
  unfold canWrite
  refine List.all_eq_true.2 fun use huse => decide_eq_true fun heq => ?_
  exact Nat.not_lt_of_le hbeyond (heq ▸ huses use huse)

theorem received?_add (s : Scene) (object : Object) (h : Handle) :
    (s.add object).2.received? h = if h = s.objects.length then object.received? else s.received? h := by
  unfold received? add
  dsimp only
  split
  · next heq =>
    rw [heq, List.getElem?_concat_length]
    rfl
  · next hne =>
    rw [List.getElem?_append]
    split
    · rfl
    · next hle =>
      have hbeyond : s.objects.length < h := Nat.lt_of_le_of_ne (Nat.le_of_not_lt hle) (Ne.symm hne)
      have hlast : [object].length ≤ h - s.objects.length := Nat.le_sub_of_add_le' hbeyond
      rw [List.getElem?_eq_none hlast, List.getElem?_eq_none (Nat.le_of_not_lt hle)]

theorem received?_eq_none (hbeyond : s.objects.length ≤ h) : s.received? h = none := by
  unfold received?
  rw [List.getElem?_eq_none hbeyond]
  rfl

theorem unheard_add (s : Scene) {object : Object} (hnew : ∀ events ∈ object.received?, events = []) :
    Unheard s (s.add object).2 := by
  refine ⟨fun h => ?_, rfl, by simp [add]⟩
  rw [received?_add]
  split
  · next heq =>
    have hnone : s.received? h = none := received?_eq_none (Nat.le_of_eq heq.symm)
    cases hobject : object.received? with
    | none => exact .inl hnone.symm
    | some events => exact .inr ⟨hnone, congrArg some (hnew events hobject)⟩
  · exact .inl rfl

end Growth

end Scene

namespace Blueprint

mutual

theorem unheard_build : (plan : Blueprint) → (s : Scene) → s.Unheard (plan.build s).2
  | entity _ _ components children, s =>
      (unheard_buildAll components s).trans ((unheard_buildAll children _).trans
        (Scene.unheard_add _ fun _ hevents => (Option.some.inj hevents).symm))
  | component _ _, s => s.unheard_add nofun
  | existing _, s => (Scene.Silent.refl s).unheard

theorem unheard_buildAll : (plans : List Blueprint) → (s : Scene) → s.Unheard (buildAll plans s).2
  | [], s => (Scene.Silent.refl s).unheard
  | plan :: plans, s => (unheard_build plan s).trans (unheard_buildAll plans (plan.build s).2)

end

-- An object is made anew unless the plan is to take one that is there already.
theorem le_build (plan : Blueprint) (hnew : ∀ handle, plan ≠ .existing handle) (s : Scene) :
    s.objects.length ≤ (plan.build s).1 := by
  cases plan with
  | entity name position components children =>
      exact ((unheard_buildAll components s).trans (unheard_buildAll children _)).length
  | component typeName fields => exact Nat.le_refl _
  | existing handle => exact absurd rfl (hnew handle)

end Blueprint

end SceneLink
