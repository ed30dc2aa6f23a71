import SceneLink.Proofs.Session.Objects

namespace SceneLink

-- A request whose interests leave room for their queries, and whose template has none of its own.
def Request.Formed {H : Type} : Request H → Prop
  | .create template interests =>
    template.interests = [] ∧ interests.Sorted ∧ ∀ entry ∈ interests, entry.2.spec.Formed
  | .updateInterests _ changes =>
    changes.Sorted ∧ ∀ entry ∈ changes, ∀ interest, entry.2 = some interest → interest.spec.Formed
  | _ => True

namespace Caller

variable {H : Type}

def specsRead (interests : Dict String (Interest H)) : Dict String InterestSpec :=
  (specs interests).mapValues InterestSpec.reread

theorem specsRead_changeInterest (interests : Dict String (Interest H))
    (change : String × Option (Interest H)) :
    specsRead (changeInterest interests change) =
      Host.changeInterest (specsRead interests) (change.1, change.2.map fun i => i.spec.reread) := by
  obtain ⟨name, interest⟩ := change
  cases interest with
  | none =>
      unfold changeInterest Host.changeInterest specsRead specs
      dsimp only [Option.map_none]
      rw [Dict.mapValues_erase, Dict.mapValues_erase]
  | some interest =>
      unfold changeInterest Host.changeInterest specsRead specs
      dsimp only [Option.map_some]
      rw [Dict.mapValues_insert, Dict.mapValues_insert]

theorem specsRead_changes (changes : HandlerChanges H) (interests : Dict String (Interest H)) :
    specsRead (changes.foldl changeInterest interests) =
      (changes.mapValues fun change => change.map fun i => i.spec.reread).foldl
        Host.changeInterest (specsRead interests) := by
  induction changes generalizing interests with
  | nil => rfl
  | cons change rest ih =>
      rw [List.foldl_cons, ih, specsRead_changeInterest]
      rfl

theorem interestsOf?_interesting (c : Caller H) (id : String) (changes : HandlerChanges H)
    (other : String) :
    (c.interesting id changes).objects.interestsOf? other =
      if other = id then (c.objects.interestsOf? id).map (changes.foldl changeInterest)
      else c.objects.interestsOf? other := by
  unfold interesting
  cases hget : c.objects.get? id with
  | none =>
      dsimp only
      split
      · next heq =>
        unfold ObjectTable.interestsOf?
        rw [heq, hget]
        rfl
      · rfl
  | some object =>
      dsimp only
      rw [ObjectTable.interestsOf?_setInterests]
      unfold ObjectTable.interestsOf?
      rw [hget]
      rfl

end Caller

namespace Flow

variable {H : Type} {f : Flow H} {id : String}

def brought (id : String) (op : Operation) : Option (Dict String InterestSpec) :=
  if op.event = .create ∧ Host.subject op = id then
    match op.payload Template.ofJson? with
    | .ok template => some template.interests
    | .error _ => none
  else none

-- What the host will hold after an operation, if it holds the object or accepts it.
def forecast (id : String) : Option (Dict String InterestSpec) → Operation →
    Option (Dict String InterestSpec)
  | some interests, op => some (Host.interestsAfter op id interests)
  | none, op => brought id op

def hostInterests (host : Host) (id : String) : Option (Dict String InterestSpec) :=
  (host.world.registry.entries.get? id).map (·.interests)

-- What the host holds, or will hold of what it accepts, is what the caller holds.
def Agreed (f : Flow H) (id : String) : Prop :=
  ∀ interests, f.up.foldl (forecast id) (hostInterests f.host id) = some interests →
    (f.caller.objects.interestsOf? id).map Caller.specsRead = some interests

section Forecast

variable {op : Operation}

theorem brought_of_ne (h : op.event ≠ .create) : brought id op = none := if_neg fun hc => h hc.1

theorem brought_of_other (h : Host.subject op ≠ id) : brought id op = none := if_neg fun hc => h hc.2

theorem forecast_same {start : Option (Dict String InterestSpec)}
    (hbrought : brought id op = none) (hkept : ∀ m, Host.interestsAfter op id m = m) :
    forecast id start op = start := by
  cases start with
  | none => exact hbrought
  | some m => exact congrArg some (hkept m)

theorem forecast_some (ops : List Operation) (m : Dict String InterestSpec) :
    ops.foldl (forecast id) (some m) =
      some (ops.foldl (fun m op => Host.interestsAfter op id m) m) := by
  induction ops generalizing m with
  | nil => rfl
  | cons op ops ih => exact ih _

theorem forecast_none {ops : List Operation} (h : .create ∉ risen id ops) :
    ops.foldl (forecast id) none = none := by
  induction ops with
  | nil => rfl
  | cons op ops ih =>
      have hbrought : brought id op = none := by
        unfold brought
        split
        · next hc =>
          have hrise : isRising id op = true := by simp [isRising, hc]
          rw [risen_cons hrise, hc.1] at h
          exact absurd List.mem_cons_self h
        · rfl
      rw [List.foldl_cons]
      change ops.foldl (forecast id) (brought id op) = none
      rw [hbrought]
      refine ih fun hmem => h ?_
      unfold risen at hmem ⊢
      obtain ⟨o, ho, hevent⟩ := List.mem_map.1 hmem
      obtain ⟨ho, hrise⟩ := List.mem_filter.1 ho
      exact List.mem_map.2 ⟨o, List.mem_filter.2 ⟨List.mem_cons_of_mem _ ho, hrise⟩, hevent⟩

end Forecast

section Requests

theorem Agreed.ask_step (h : f.Agreed id) {c : Caller H} {ops : List Operation}
    (asked : List (Asked H))
    (hstep : ∀ start, (∀ m, start = some m →
        (f.caller.objects.interestsOf? id).map Caller.specsRead = some m) →
      ∀ m, ops.foldl (forecast id) start = some m →
        (c.objects.interestsOf? id).map Caller.specsRead = some m) :
    Agreed { f with caller := c, up := f.up ++ ops, asked } id := by
  intro m hm
  change (f.up ++ ops).foldl (forecast id) (hostInterests f.host id) = some m at hm
  rw [List.foldl_append] at hm
  exact hstep _ h m hm

theorem Agreed.ask_other (h : f.Agreed id) {c : Caller H} {ops : List Operation}
    (asked : List (Asked H)) (hsame : c.objects.interestsOf? id = f.caller.objects.interestsOf? id)
    (hops : ∀ op ∈ ops, brought id op = none ∧ ∀ m, Host.interestsAfter op id m = m) :
    Agreed { f with caller := c, up := f.up ++ ops, asked } id := by
  refine h.ask_step asked fun start hstart m hm => ?_
  have hfold : ops.foldl (forecast id) start = start := by
    clear hm
    induction ops generalizing start with
    | nil => rfl
    | cons op ops ih =>
        obtain ⟨hbrought, hkept⟩ := hops op List.mem_cons_self
        rw [List.foldl_cons, forecast_same hbrought hkept]
        exact ih (fun o ho => hops o (List.mem_cons_of_mem _ ho)) start hstart
  rw [hsame]
  exact hstart m (hfold ▸ hm)

theorem brought_create {template : Template} {interests : Dict String (Interest H)} {issued : String}
    (hformed : (Request.create template interests).Formed) {m : Dict String InterestSpec}
    (hm : brought id (Operation.create (Caller.travelling template interests issued)).wire = some m) :
    Caller.specsRead interests = m := by
  obtain ⟨hempty, hsorted, hspecs⟩ := hformed
  have hspecsSorted : (Caller.specs interests).Sorted := Dict.sorted_mapValues hsorted
  have htravel : (Caller.travelling template interests issued).interests = Caller.specs interests := by
    change template.interests.insertAll (Caller.specs interests) = _
    rw [hempty]
    exact Dict.ofList_eq_self hspecsSorted
  unfold brought at hm
  split at hm
  · split at hm
    · next payload hpayload =>
      have hread := (Operation.payload_create hpayload).2
      rw [htravel] at hread
      rw [← Option.some.inj hm]
      refine (hread hspecsSorted fun entry he => ?_).symm
      obtain ⟨original, horiginal, rfl⟩ := List.mem_map.1 he
      exact hspecs original horiginal
    · cases hm
  · cases hm

theorem Agreed.ask_create (h : f.Agreed id) (htracked : f.Tracked id) {template : Template}
    {interests : Dict String (Interest H)}
    (hformed : (Request.create template interests).Formed) (asked : List (Asked H)) :
    Agreed { f with
      caller := (f.caller.respond (.create template interests)).after
      up := f.up ++ (f.caller.respond (.create template interests)).sent.toList.map Operation.wire
      asked } id := by
  let issued := (f.caller.objectIds.issue template.kind).1
  have hinterests : (f.caller.respond (.create template interests)).after.objects.interestsOf? id =
      if id = issued then some interests else f.caller.objects.interestsOf? id := by
    rw [Caller.after_objects]
    exact ObjectTable.interestsOf?_insert _ _ _ _
  have hsent : (f.caller.respond (.create template interests)).sent.toList.map Operation.wire =
      [(Operation.create (Caller.travelling template interests issued)).wire] := rfl
  by_cases heq : id = issued
  · rw [if_pos heq] at hinterests
    refine h.ask_step asked fun start hstart m hm => ?_
    rw [hinterests]
    have hnone : start = none := by
      cases start with
      | none => rfl
      | some m =>
          have hsome := hstart m rfl
          have hclient : f.client id = none := htracked.fresh template.kind _ (Nat.le_refl _) heq
          unfold client ObjectTable.stateOf? at hclient
          unfold ObjectTable.interestsOf? at hsome
          rw [Option.map_eq_none_iff.1 hclient] at hsome
          cases hsome
    rw [hnone, hsent, List.foldl_cons, List.foldl_nil, forecast] at hm
    exact congrArg some (brought_create hformed hm)
  · refine h.ask_other asked (hinterests.trans (if_neg heq)) fun op hop => ?_
    rw [hsent] at hop
    rw [List.mem_singleton.1 hop]
    refine ⟨brought_of_other ?_, Host.interestsAfter_of_ne (Ne.symm ?_) id⟩
    · rw [Operation.subject_create]
      exact Ne.symm heq
    · exact (nofun : Event.updateInterests ≠ .create)

theorem interestsAfter_updateInterests (hid : id ≠ "") {changes : HandlerChanges H}
    (hformed : (Request.updateInterests id changes).Formed) (m : Dict String InterestSpec) :
    Host.interestsAfter (Operation.updateInterests id
        (changes.mapValues fun change => change.map (·.spec))).wire id m =
      (changes.mapValues fun change => change.map fun i => i.spec.reread).foldl
        Host.changeInterest m := by
  obtain ⟨hsorted, hspecs⟩ := hformed
  have hpayload := Operation.payload_updateInterests id
    (Dict.sorted_mapValues (f := fun change : Option (Interest H) => change.map (·.spec)) hsorted)
    (by
      intro entry he spec hspec
      obtain ⟨change, hchange, rfl⟩ := List.mem_map.1 he
      obtain ⟨interest, hinterest, rfl⟩ := Option.map_eq_some_iff.1 hspec
      exact hspecs change hchange interest hinterest)
  have hcompose : (Option.map InterestSpec.reread) ∘ (Option.map fun i : Interest H => i.spec) =
      Option.map fun i => i.spec.reread := funext fun change => Option.map_map _ _ _
  have hname : nonEmpty? (some id) = some id := by
    unfold nonEmpty?
    simp [Option.filter, hid]
  unfold Host.interestsAfter
  rw [if_pos ⟨rfl, hname⟩, hpayload, Dict.mapValues_mapValues]
  dsimp only
  exact congrArg (fun g => (changes.mapValues g).foldl Host.changeInterest m) hcompose

theorem Agreed.ask_updateInterests (h : f.Agreed id) (hid : id ≠ "") {target : String}
    {changes : HandlerChanges H} (hformed : (Request.updateInterests target changes).Formed)
    (asked : List (Asked H)) :
    Agreed { f with
      caller := (f.caller.respond (.updateInterests target changes)).after
      up := f.up ++
        (f.caller.respond (.updateInterests target changes)).sent.toList.map Operation.wire
      asked } id := by
  let sent := Operation.updateInterests target (changes.mapValues fun change => change.map (·.spec))
  have hrespond : f.caller.respond (.updateInterests target changes) =
      if f.caller.objects.isLive target
        then ⟨.ok .unit, f.caller.interesting target changes, some sent⟩
        else ⟨.error (.unknownObject target), f.caller, none⟩ := rfl
  rw [hrespond]
  split
  · next hlive =>
    have hinterests := f.caller.interestsOf?_interesting target changes id
    have hbrought : brought id sent.wire = none :=
      brought_of_ne (nofun : Event.updateInterests ≠ .create)
    by_cases heq : id = target
    · subst heq
      rw [if_pos rfl] at hinterests
      refine h.ask_step asked fun start hstart m hm => ?_
      change forecast id start sent.wire = some m at hm
      cases start with
      | none => exact nomatch hbrought.symm.trans hm
      | some before =>
          have hbefore := hstart before rfl
          obtain ⟨interests, hget, hread⟩ := Option.map_eq_some_iff.1 hbefore
          change ((f.caller.interesting id changes).objects.interestsOf? id).map Caller.specsRead =
            some m
          rw [hinterests, hget, Option.map_some, Option.map_some, Caller.specsRead_changes, hread,
            ← hm, forecast, interestsAfter_updateInterests hid hformed]
    · refine h.ask_other asked (hinterests.trans (if_neg heq)) fun op hop => ?_
      rw [List.mem_singleton.1 hop]
      refine ⟨hbrought, fun m => if_neg fun hc => heq ?_⟩
      exact (Option.some.inj (Option.filter_eq_some_iff.1 hc.2).1).symm
  · exact h.ask_other asked rfl fun _ h => nomatch h

theorem Agreed.ask (h : f.Agreed id) (htracked : f.Tracked id) (hid : id ≠ "") {request : Request H}
    (hformed : request.Formed) (asked : List (Asked H)) :
    Agreed { f with
      caller := (f.caller.respond request).after
      up := f.up ++ (f.caller.respond request).sent.toList.map Operation.wire
      asked } id := by
  have hother : request.concernsObjects = false → Agreed { f with
      caller := (f.caller.respond request).after
      up := f.up ++ (f.caller.respond request).sent.toList.map Operation.wire
      asked } id := by
    intro hspares
    obtain ⟨hobjects, -, hsent⟩ := f.caller.respond_other hspares
    refine h.ask_other asked (by rw [hobjects]) fun op hop => ?_
    obtain ⟨o, ho, rfl⟩ := List.mem_map.1 hop
    have hevent := hsent o (Option.mem_toList.1 ho)
    obtain ⟨hcreate, -, hinterests⟩ := Event.ne_of_sparesObjects hevent
    rw [← Operation.wire_event (Event.settled_of_sparesObjects hevent)] at hcreate hinterests
    exact ⟨brought_of_ne hcreate, Host.interestsAfter_of_ne hinterests id⟩
  cases request with
  | create template interests => exact h.ask_create htracked hformed asked
  | updateInterests target changes => exact h.ask_updateInterests hid hformed asked
  | destroy target =>
      have hrespond : f.caller.respond (.destroy target) = if f.caller.objects.isLive target
        then ⟨.ok .unit,
          { f.caller with objects := f.caller.objects.setState target .pendingDestroy },
          some (Operation.destroy target)⟩
        else ⟨.error (.unknownObject target), f.caller, none⟩ := rfl
      rw [hrespond]
      split
      · refine h.ask_other asked (ObjectTable.interestsOf?_setState _ _ _ _) fun op hop => ?_
        rw [List.mem_singleton.1 hop]
        exact ⟨brought_of_ne (nofun : Event.destroy ≠ .create),
          Host.interestsAfter_of_ne (nofun : Event.destroy ≠ .updateInterests) id⟩
      · exact h.ask_other asked rfl fun _ h => nomatch h
  | _ => exact hother rfl

end Requests

section Deeds

theorem forecast_kept {start : Option (Dict String InterestSpec)} {op : Operation}
    (hbrought : brought id op = none) (hevent : op.event ≠ .updateInterests) :
    forecast id start op = start :=
  forecast_same hbrought (Host.interestsAfter_of_ne hevent id)

theorem forecast_created {op : Operation} {template : Template} {host : Host} {ops : List Operation}
    (hevent : op.event = .create) (hcreate : ∃ t, op = (Operation.create t).wire)
    (hpayload : op.payload Template.ofJson? = .ok template)
    (hcreated : Host.Created f.host template host ops) :
    hostInterests host id = forecast id (hostInterests f.host id) op := by
  obtain ⟨t, rfl⟩ := hcreate
  have htemplate : template.id = t.id := (Operation.payload_create hpayload).1
  obtain ⟨handle, hentries⟩ := hcreated.entries
  unfold hostInterests
  rw [hentries]
  by_cases heq : id = template.id
  · have hfresh : f.host.world.registry.entries.get? template.id = none := by
      have := hcreated.fresh
      unfold Registry.contains Dict.contains at this
      simpa using this
    have hbrought : brought template.id (Operation.create t).wire = some template.interests := by
      unfold brought
      rw [if_pos ⟨hevent, by rw [Operation.subject_create, htemplate]⟩, hpayload]
    rw [if_pos heq, heq, hfresh]
    exact hbrought.symm
  · rw [if_neg heq]
    refine (forecast_kept (brought_of_other ?_) (by rw [hevent]; decide)).symm
    rw [Operation.subject_create, ← htemplate]
    exact Ne.symm heq

theorem forecast_applied (htracked : f.Tracked id) (hid : id ≠ "") {op : Operation}
    {rest ops : List Operation} {host : Host} (hup : f.up = op :: rest)
    (hcreate : op.event = .create → ∃ t, op = (Operation.create t).wire)
    (happlied : Host.Applied f.host op host ops) :
    hostInterests host id = forecast id (hostInterests f.host id) op ∨
      hostInterests host id = none ∧ .create ∉ risen id rest := by
  have honce : isRising id op = true → .create ∉ risen id rest := by
    intro hrise
    have hstage := htracked.stage
    rw [hup, risen_cons hrise] at hstage
    exact hstage.created_first
  cases happlied.change with
  | refused hevent hrefuses hk hops =>
      rw [hk]
      cases hheld : hostInterests f.host id with
      | some m =>
          left
          exact congrArg some (Host.interestsAfter_of_ne (by rw [hevent]; decide) id m).symm
      | none =>
          by_cases hsubject : Host.subject op = id
          · exact .inr ⟨rfl, honce (by simp [isRising, hevent, hsubject])⟩
          · exact .inl (brought_of_other hsubject).symm
  | created hevent hrefuses template hpayload hk =>
      exact .inl (forecast_created hevent (hcreate hevent) hpayload hk)
  | unknown hevent hk hops hunknown =>
      left
      rw [hk]
      exact (forecast_kept (brought_of_ne (by rw [hevent]; decide)) (by rw [hevent]; decide)).symm
  | destroyed hevent target htarget hheld hentries hops =>
      unfold hostInterests
      rw [hentries]
      by_cases heq : id = target
      · rw [if_pos heq]
        exact .inr ⟨rfl, honce ((isRising_destroy hid hevent).2 (heq ▸ htarget))⟩
      · rw [if_neg heq]
        left
        exact (forecast_kept (brought_of_ne (by rw [hevent]; decide)) (by rw [hevent]; decide)).symm
  | kept hnocreate hnodestroy hentries hops =>
      left
      unfold hostInterests
      rw [hentries]
      cases f.host.world.registry.entries.get? id with
      | none => exact (brought_of_ne hnocreate).symm
      | some entry => rfl

theorem Agreed.apply (h : f.Agreed id) (htracked : f.Tracked id) (hid : id ≠ "") {op : Operation}
    {rest ops : List Operation} {host : Host} (hup : f.up = op :: rest)
    (hcreate : op.event = .create → ∃ t, op = (Operation.create t).wire)
    (happlied : Host.Applied f.host op host ops) (down : List Operation) (deeds : List Deed) :
    Agreed { f with host, up := rest, down, deeds } id := by
  intro m hm
  rcases forecast_applied htracked hid hup hcreate happlied with hforecast | ⟨hnone, honce⟩
  · refine h m ?_
    rw [hup, List.foldl_cons, ← hforecast]
    exact hm
  · change rest.foldl (forecast id) (hostInterests host id) = some m at hm
    rw [hnone, forecast_none honce] at hm
    cases hm

theorem Agreed.act (h : f.Agreed id) {deed : Deed} {host : Host} {ops : List Operation}
    (hdone : Host.Done f.host deed host ops) (hregister : ∀ handle, deed ≠ .register id handle)
    (down : List Operation) (deeds : List Deed) :
    Agreed { f with host, down, deeds } id := by
  intro m hm
  refine h m ?_
  have hsame : hostInterests host id = hostInterests f.host id :=
    congrArg (Option.map _) (hdone.entries id hregister)
  rw [← hsame]
  exact hm

theorem Agreed.hear (h : f.Agreed id) (op : Operation) (down : List Operation)
    (ran : List (Option String × H × Occasion)) :
    Agreed { f with caller := f.caller.onset op, down, ran } id := by
  intro m hm
  change ((f.caller.onset op).objects.interestsOf? id).map _ = _
  rw [Caller.interestsOf?_onset]
  exact h m hm

theorem Agreed.close (h : f.Agreed id) (htracked : f.Tracked id) {op : Operation}
    {rest : List Operation} (hdown : f.down = op :: rest) (hevent : op.event = .destroyed) :
    Agreed { f with caller := f.caller.close op, down := rest } id := by
  intro m hm
  change ((f.caller.close op).objects.interestsOf? id).map _ = _
  rw [Caller.interestsOf?_close]
  split
  · next hdestroyed =>
    have hstage := htracked.stage
    rw [hdown, fallen_cons (by simp [isFalling, hdestroyed]), hevent] at hstage
    obtain ⟨hheld, hrisen⟩ := hstage.gone
    have hnone : hostInterests f.host id = none := by
      unfold holds Registry.contains Dict.contains at hheld
      unfold hostInterests
      rw [Option.map_eq_none_iff]
      simpa using hheld
    change f.up.foldl (forecast id) (hostInterests f.host id) = some m at hm
    rw [hnone, forecast_none (by rw [hrisen]; exact List.not_mem_nil)] at hm
    cases hm
  · exact h m hm

theorem agreed (hf : f.Reachable) (hid : id ≠ "") (hown : ∀ handle, .register id handle ∉ f.deeds)
    (hformed : ∀ a ∈ f.asked, a.request.Formed) : f.Agreed id := by
  induction hf with
  | start settings host down hregistry hanimator hdown =>
      intro m hm
      change (host.world.registry.entries.get? id).map (·.interests) = some m at hm
      rw [hregistry] at hm
      cases hm
  | @move f g hf hmove ih =>
      cases hmove with
      | ask request hplain =>
          have hbefore := ih hown fun a ha => hformed a (List.mem_append_left _ ha)
          have hrequest := hformed _ (List.mem_append_right _ (List.mem_singleton_self _))
          exact hbefore.ask (tracked hf hid hown) hid hrequest _
      | apply op rest ops hup happlied =>
          have hdeeds : ∀ handle, .register id handle ∉ f.deeds := fun handle hmem =>
            hown handle (List.mem_append_left _ hmem)
          refine (ih hdeeds hformed).apply (tracked hf hid hdeeds) hid hup (up_create hf op ?_)
            happlied _ _
          rw [hup]
          exact List.mem_cons_self
      | act deed ops hdeed hdone =>
          have hbefore := ih (fun handle hmem => hown handle (List.mem_append_left _ hmem)) hformed
          refine hbefore.act hdone (fun handle heq => hown handle ?_) _ _
          rw [heq]
          exact List.mem_append_right _ (List.mem_singleton_self _)
      | hear op rest hdown hevent => exact (ih hown hformed).hear op _ _
      | close op rest hdown hevent =>
          exact (ih hown hformed).close (tracked hf hid hown) hdown hevent
      | ship => exact ih (fun handle hmem => hown handle (List.mem_append_left _ hmem)) hformed

end Deeds

end Flow

namespace Session

variable {H : Type} {s : Session H}

-- What the host will hold of the interests of an object once it has applied all that is on its way.
def interestsAhead (s : Session H) (id : String) (interests : Dict String InterestSpec) :
    Dict String InterestSpec :=
  s.rising.foldl (fun interests op => Host.interestsAfter op id interests) interests

-- The interests of an object that the host holds become those that the caller holds, with
-- their metadata as it is read from its text.
theorem interestsAhead_eq (hs : s.Reachable) {id : String}
    (hissued : ∃ template interests, ⟨.create template interests, .ok (.id id)⟩ ∈ s.asked)
    (hown : ∀ handle, .register id handle ∉ s.deeds)
    (hformed : ∀ a ∈ s.asked, a.request.Formed) {entry : Registration}
    (hheld : s.host.world.registry.entries.get? id = some entry) :
    ∃ object, s.caller.objects.get? id = some object ∧
      s.interestsAhead id entry.interests = Caller.specsRead object.interests := by
  obtain ⟨hf, -⟩ := hs.flow
  obtain ⟨template, interests, hasked⟩ := hissued
  have hagreed := Flow.agreed hf (Flow.ne_empty_of_issued hf hasked) hown hformed
  have hfold : s.rising.foldl (Flow.forecast id) (Flow.hostInterests s.host id) =
      some (s.interestsAhead id entry.interests) := by
    unfold Flow.hostInterests
    rw [hheld]
    exact Flow.forecast_some _ _
  obtain ⟨held, hget, hread⟩ := Option.map_eq_some_iff.1 (hagreed _ hfold)
  obtain ⟨object, hobject, rfl⟩ := Option.map_eq_some_iff.1 hget
  exact ⟨object, hobject, hread.symm⟩

theorem specsRead_eq_self {interests : Dict String (Interest H)}
    (hexact : ∀ interest ∈ interests, ∀ field ∈ interest.2.spec.extra,
      field.2.Sorted ∧ field.2.Exact) :
    Caller.specsRead interests = Caller.specs interests := by
  unfold Caller.specsRead Caller.specs
  rw [Dict.mapValues_mapValues]
  refine List.map_congr_left fun interest hi => ?_
  exact congrArg (Prod.mk interest.1) (InterestSpec.reread_eq_self (hexact interest hi))

section Weighed

-- A subscription with a weight among its metadata.
def weighing (weight : Json) : Dict String (Interest Unit) :=
  [("Tick", { spec := { extra := [("weight", weight)] }, handler := () })]

def weighingAsked (weight : Json) : Session Unit :=
  ((start {} { announceOnAttach := false } {}).ship.ask (.create {} (weighing weight))).ship

def weighingOperation : Operation :=
  Operation.create (Caller.travelling {} (weighing Json.inexact) "Object_0")

-- A session in which the host has created an object with such a weight.
def weighed : Session Unit := ((weighingAsked Json.inexact).takeOps [weighingOperation.wire] []).ship

private theorem weighed_run :
    [weighingOperation].all (fun op => op.data.all fun data => data.depth ≤ 125) = true ∧
    ((weighingAsked Json.inexact).takeOps [weighingOperation.wire] []).host.outbox.texts =
      [Operation.created "Object_0"].map Operation.text ∧
    (weighed.host.world.registry.entries.get? "Object_0").isSome = true ∧
    (Issuer.issue {} "").1 = "Object_0" := by
  decide +kernel

private theorem weighing_fits : ∀ op ∈ [weighingOperation], op.Fits := fits_of_all weighed_run.1

private theorem weighingAsked_reachable : (weighingAsked Json.inexact).Reachable := by
  refine (Reachable.start {} { announceOnAttach := false } {}).ask (by trivial) fun op hop => ?_
  cases hop
  exact weighing_fits _ List.mem_cons_self

private theorem weighingAsked_up : (weighingAsked Json.inexact).up = [Batch.encode [weighingOperation]] :=
  ask_up (Reachable.start {} { announceOnAttach := false } {}).flow.2.caller (by trivial) rfl rfl rfl
    rfl rfl

theorem weighed_reachable : weighed.Reachable := by
  refine weighingAsked_reachable.takeOps weighingAsked_up (opsOf_encode weighing_fits)
    (List.cons_ne_nil _ _) weighed_run.2.1 ?_
  exact List.forall_mem_singleton.2 fun _ h => nomatch h

private theorem weighed_issued : ∃ template interests,
    ⟨.create template interests, .ok (.id "Object_0")⟩ ∈ weighed.asked :=
  ⟨_, _, List.mem_singleton_self _⟩

private theorem weighed_formed : ∀ a ∈ weighed.asked, a.request.Formed := by
  refine List.forall_mem_singleton.2 ⟨rfl, by decide, List.forall_mem_singleton.2 ?_⟩
  exact ⟨⟨by decide, fun _ h => nomatch h⟩, by decide, by decide⟩

private theorem weighed_own (handle : Handle) : .register "Object_0" handle ∉ weighed.deeds := by
  have hdeeds : weighed.deeds =
      [.collect, .collect, .apply weighingOperation.wire, .flush, .collect] := rfl
  rw [hdeeds]
  simp

private theorem weighed_held : ∃ entry, weighed.host.world.registry.entries.get? "Object_0" = some entry :=
  Option.isSome_iff_exists.1 weighed_run.2.2.1

private theorem weighed_object : weighed.caller.objects.get? "Object_0" =
    some { kind := "Object", interests := weighing Json.inexact } := by
  have hl := (Reachable.start (H := Unit) {} { announceOnAttach := false } {}).flow.2.caller
  unfold weighed weighingAsked takeOps
  rw [ask_eq hl (by trivial)]
  change Dict.get? (Dict.insert [] (Issuer.issue {} "").1 _) _ = _
  rw [weighed_run.2.2.2, Dict.get?_insert, if_pos rfl]
  rfl

theorem specsRead_weighing {weight : Json} (h : weight.reread.render ≠ weight.render) :
    Caller.specsRead (weighing weight) ≠ Caller.specs (weighing weight) := by
  intro heq
  simp only [Caller.specsRead, Caller.specs, weighing, InterestSpec.reread, Dict.mapValues,
    List.map_cons, List.map_nil, List.cons.injEq, Prod.mk.injEq, InterestSpec.mk.injEq, and_true,
    true_and] at heq
  exact h (congrArg Json.render heq)

end Weighed

-- The interests of an object that the host holds become those that the caller holds, with their
-- metadata as it is read from its text, which is the metadata itself where it is exact.
theorem interest_tables_agree (hs : s.Reachable) {id : String}
    (hissued : ∃ template interests, ⟨.create template interests, .ok (.id id)⟩ ∈ s.asked)
    (hown : ∀ handle, .register id handle ∉ s.deeds)
    (hformed : ∀ a ∈ s.asked, a.request.Formed) {entry : Registration}
    (hheld : s.host.world.registry.entries.get? id = some entry) :
    ∃ object, s.caller.objects.get? id = some object ∧
      s.interestsAhead id entry.interests =
        (Caller.specs object.interests).mapValues InterestSpec.reread ∧
      (s.Quiet → s.interestsAhead id entry.interests = entry.interests) ∧
      ((∀ interest ∈ object.interests, ∀ field ∈ interest.2.spec.extra,
          field.2.Sorted ∧ field.2.Exact) →
        s.interestsAhead id entry.interests = Caller.specs object.interests) := by
  obtain ⟨object, hobject, hahead⟩ := interestsAhead_eq hs hissued hown hformed hheld
  refine ⟨object, hobject, hahead, fun hquiet => ?_, fun hexact => ?_⟩
  · unfold interestsAhead
    rw [(hs.quiet_flow hquiet).1]
    rfl
  · rw [hahead]
    exact specsRead_eq_self hexact

theorem interest_tables_agree_weighed : ∃ entry object,
    weighed.host.world.registry.entries.get? "Object_0" = some entry ∧
    weighed.caller.objects.get? "Object_0" = some object ∧
      weighed.interestsAhead "Object_0" entry.interests =
        (Caller.specs object.interests).mapValues InterestSpec.reread ∧
      (weighed.Quiet → weighed.interestsAhead "Object_0" entry.interests = entry.interests) ∧
      ((∀ interest ∈ object.interests, ∀ field ∈ interest.2.spec.extra,
          field.2.Sorted ∧ field.2.Exact) →
        weighed.interestsAhead "Object_0" entry.interests = Caller.specs object.interests) := by
  obtain ⟨entry, hheld⟩ := weighed_held
  obtain ⟨object, hobject⟩ :=
    interest_tables_agree weighed_reachable weighed_issued weighed_own weighed_formed hheld
  exact ⟨entry, object, hheld, hobject⟩

-- The far end holds the number that was read, and not the one that was written.
theorem interest_tables_differ : ∃ (s : Session Unit) (id : String) (entry : Registration)
    (object : TrackedObject Unit), s.Reachable ∧
    (∃ template interests, ⟨.create template interests, .ok (.id id)⟩ ∈ s.asked) ∧
    (∀ handle, .register id handle ∉ s.deeds) ∧ (∀ a ∈ s.asked, a.request.Formed) ∧
    s.host.world.registry.entries.get? id = some entry ∧ s.caller.objects.get? id = some object ∧
    s.interestsAhead id entry.interests ≠ Caller.specs object.interests := by
  obtain ⟨entry, hheld⟩ := weighed_held
  obtain ⟨object, hobject, hahead⟩ :=
    interestsAhead_eq weighed_reachable weighed_issued weighed_own weighed_formed hheld
  refine ⟨weighed, "Object_0", entry, object, weighed_reachable, weighed_issued, weighed_own,
    weighed_formed, hheld, hobject, ?_⟩
  have hweighing := weighed_object
  rw [hobject] at hweighing
  rw [hahead, Option.some.inj hweighing]
  exact specsRead_weighing Json.render_reread_inexact

end Session

end SceneLink
