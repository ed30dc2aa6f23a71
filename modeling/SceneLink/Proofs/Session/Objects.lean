import SceneLink.Proofs.Caller.Tables
import SceneLink.Proofs.Operation.Issuer
import SceneLink.Proofs.Operation.Payload
import SceneLink.Proofs.Session.Flow

namespace SceneLink

namespace Host

def refusedBy (h : Host) : Deed → List String
  | .apply op => if op.event = .create ∧ h.refuses op then [subject op] else []
  | _ => []

def refused (h : Host) : List Deed → List String
  | [] => []
  | deed :: deeds => h.refusedBy deed ++ (h.perform deed).refused deeds

theorem refusedBy_apply (h : Host) (op : Operation) :
    h.refusedBy (.apply op) = if op.event = .create ∧ h.refuses op then [subject op] else [] := rfl

theorem refusedBy_of_accepted {h : Host} {op : Operation} (hop : op.event ≠ .create ∨ h.refuses op = false) :
    h.refusedBy (.apply op) = [] := by
  rw [refusedBy_apply, if_neg]
  rintro ⟨hevent, hrefuses⟩
  rcases hop with hother | haccepts
  · exact hother hevent
  · rw [haccepts] at hrefuses
    cases hrefuses

theorem refused_append (h : Host) (deeds : List Deed) (deed : Deed) :
    h.refused (deeds ++ [deed]) = h.refused deeds ++ (h.after deeds).refusedBy deed := by
  induction deeds generalizing h with
  | nil => exact List.append_nil _
  | cons first rest ih =>
      rw [List.cons_append, refused, refused, ih, List.append_assoc]
      rfl

end Host

-- Where an object is: its state at the caller, whether the host holds it, and its news on their way
-- to the host and to the caller.
inductive Stage (refused : Prop) : Option Lifecycle → Bool → List Event → List Event → Prop
  -- Not asked for yet, or gone at both ends.
  | absent (h : ¬refused) : Stage refused none false [] []
  | asked (h : ¬refused) : Stage refused (some .requested) false [.create] []
  | askedDoomed (h : ¬refused) : Stage refused (some .pendingDestroy) false [.create, .destroy] []
  | created (h : ¬refused) : Stage refused (some .requested) true [] [.created]
  | createdDoomed (h : ¬refused) :
      Stage refused (some .pendingDestroy) true [.destroy] [.created]
  | active (h : ¬refused) : Stage refused (some .active) true [] []
  | doomed (h : ¬refused) : Stage refused (some .pendingDestroy) true [.destroy] []
  -- The host is done with it before the caller has heard that it existed.
  | endedUnheard (h : ¬refused) :
      Stage refused (some .pendingDestroy) false [] [.created, .destroyed]
  | ended (h : ¬refused) : Stage refused (some .pendingDestroy) false [] [.destroyed]
  | refused (h : refused) : Stage refused (some .requested) false [] []
  | refusedDoomed (h : refused) : Stage refused (some .pendingDestroy) false [.destroy] []
  | refusedEnded (h : refused) : Stage refused (some .pendingDestroy) false [] []

namespace Stage

variable {r r' : Prop} {client : Option Lifecycle} {held : Bool} {up down : List Event}

private theorem congr_refused (h : Stage r client held up down) (hr : r ↔ r') :
    Stage r' client held up down := propext hr ▸ h

theorem ask (h : Stage r none held up down) :
    Stage r (some .requested) held (up ++ [.create]) down := by
  cases h with
  | absent h => exact .asked h

theorem doom (h : Stage r client held up down)
    (hlive : client = some .requested ∨ client = some .active) :
    Stage r (some .pendingDestroy) held (up ++ [.destroy]) down := by
  cases h with
  | asked h => exact .askedDoomed h
  | created h => exact .createdDoomed h
  | active h => exact .doomed h
  | refused h => exact .refusedDoomed h
  | _ => simp at hlive

theorem create (h : Stage r client held (.create :: up) down) :
    Stage r client true up (down ++ [.created]) := by
  cases h with
  | asked h => exact .created h
  | askedDoomed h => exact .createdDoomed h

theorem refuse (h : Stage r client held (.create :: up) down) (hr : r') :
    Stage r' client held up down := by
  cases h with
  | asked => exact .refused hr
  | askedDoomed => exact .refusedDoomed hr

theorem destroy (h : Stage r client true (.destroy :: up) down) :
    Stage r client false up (down ++ [.destroyed]) := by
  cases h with
  | createdDoomed h => exact .endedUnheard h
  | doomed h => exact .ended h

theorem destroyUnknown (h : Stage r client false (.destroy :: up) down) :
    Stage r client false up down := by
  cases h with
  | refusedDoomed h => exact .refusedEnded h

theorem hearCreated (h : Stage r client held up (.created :: down)) :
    Stage r (client.map fun state => if state = .requested then .active else state) held up down := by
  cases h with
  | created h => exact .active h
  | createdDoomed h => exact .doomed h
  | endedUnheard h => exact .ended h

theorem hearDestroyed (h : Stage r client held up (.destroyed :: down)) :
    Stage r none held up down := by
  cases h with
  | ended h => exact .absent h

-- An object is created at most once.
theorem created_first {e : Event} (h : Stage r client held (e :: up) down) : .create ∉ up := by
  cases h <;> simp

theorem gone (h : Stage r client held up (.destroyed :: down)) : held = false ∧ up = [] := by
  cases h
  exact ⟨rfl, rfl⟩

theorem held_of_active (h : Stage r (some .active) held up down) : held = true := by
  cases h
  rfl

theorem tracked_of_held (h : Stage r client true up down) : client.isSome := by
  cases h <;> rfl

theorem quiet (h : Stage r client held [] []) :
    (held = true ↔ client = some .active) ∧
      (client = some .requested ∨ client = some .pendingDestroy ↔ client.isSome ∧ r) := by
  cases h <;> simp_all

end Stage

namespace Flow

variable {H : Type} {f : Flow H}

def client (f : Flow H) (id : String) : Option Lifecycle := f.caller.objects.stateOf? id

def holds (f : Flow H) (id : String) : Bool := f.host.world.registry.contains id

-- News of the beginning and the end of an object.
def isRising (id : String) (op : Operation) : Bool :=
  (op.event = .create ∨ op.event = .destroy) ∧ Host.subject op = id

def isFalling (id : String) (op : Operation) : Bool :=
  (op.event = .created ∨ op.event = .destroyed) ∧ op.id = some id

def risen (id : String) (ops : List Operation) : List Event := (ops.filter (isRising id)).map (·.event)

def fallen (id : String) (ops : List Operation) : List Event := (ops.filter (isFalling id)).map (·.event)

section News

variable {id : String} {op : Operation} {ops more : List Operation}

theorem risen_append : risen id (ops ++ more) = risen id ops ++ risen id more := by
  unfold risen
  rw [List.filter_append, List.map_append]

theorem fallen_append : fallen id (ops ++ more) = fallen id ops ++ fallen id more := by
  unfold fallen
  rw [List.filter_append, List.map_append]

theorem risen_cons (h : isRising id op = true) : risen id (op :: ops) = op.event :: risen id ops := by
  unfold risen
  rw [List.filter_cons_of_pos h, List.map_cons]

private theorem risen_cons_other (h : isRising id op = false) : risen id (op :: ops) = risen id ops := by
  unfold risen
  rw [List.filter_cons_of_neg (by simp [h])]

theorem fallen_cons (h : isFalling id op = true) :
    fallen id (op :: ops) = op.event :: fallen id ops := by
  unfold fallen
  rw [List.filter_cons_of_pos h, List.map_cons]

private theorem fallen_cons_other (h : isFalling id op = false) : fallen id (op :: ops) = fallen id ops := by
  unfold fallen
  rw [List.filter_cons_of_neg (by simp [h])]

theorem fallen_eq_nil (h : ∀ o ∈ ops, isFalling id o = false) : fallen id ops = [] := by
  unfold fallen
  rw [List.filter_eq_nil_iff.2 fun o ho => by simp [h o ho], List.map_nil]

theorem fallen_wire_eq_nil (h : ∀ o ∈ ops, isFalling id o.wire = false) :
    fallen id (ops.map Operation.wire) = [] := by
  refine fallen_eq_nil fun o ho => ?_
  obtain ⟨sent, hsent, rfl⟩ := List.mem_map.1 ho
  exact h sent hsent

theorem isRising_destroy (hid : id ≠ "") (hevent : op.event = .destroy) :
    isRising id op = true ↔ nonEmpty? op.id = some id := by
  unfold isRising Host.subject
  rw [hevent]
  cases hop : nonEmpty? op.id with
  | none => simp [Ne.symm hid]
  | some other => simp

theorem isRising_other (hcreate : op.event ≠ .create) (hdestroy : op.event ≠ .destroy) :
    isRising id op = false := by
  simp [isRising, hcreate, hdestroy]

private theorem isRising_create (t : Template) :
    isRising id (Operation.create t).wire = true ↔ t.id = id := by
  have hevent : (Operation.create t).wire.event = .create := rfl
  simp [isRising, hevent, Operation.subject_create]

private theorem isFalling_created (name : String) (data : Option Json) :
    isFalling id ({ Operation.created name with data } : Operation).wire = decide (name = id) := by
  change decide ((Event.created = .created ∨ Event.created = .destroyed) ∧ some name = some id) = _
  simp

private theorem isFalling_destroyed (name : String) (data : Option Json) :
    isFalling id ({ Operation.destroyed name with data } : Operation).wire = decide (name = id) := by
  change decide ((Event.destroyed = .created ∨ Event.destroyed = .destroyed) ∧ some name = some id) = _
  simp

theorem isFalling_of_settled (hsettled : op.event.Settled) (hcreated : op.event ≠ .created)
    (hdestroyed : op.event ≠ .destroyed) : isFalling id op.wire = false := by
  rw [← Operation.wire_event hsettled] at hcreated hdestroyed
  simp [isFalling, hcreated, hdestroyed]

theorem isFalling_reports {name : String} {reported : Dict String Json} (h : op ∈ Host.reports name reported) :
    isFalling id op.wire = false := by
  have hevent := Host.reports_event h
  exact isFalling_of_settled (by rw [hevent]; rfl) (by simp [hevent]) (by simp [hevent])

end News

section Tracking

variable {id : String}

structure Tracked (f : Flow H) (id : String) : Prop where
  stage : Stage (id ∈ f.origin.refused f.deeds) (f.client id) (f.holds id) (risen id f.up)
    (fallen id f.down)
  fresh : ∀ kind n, f.caller.objectIds.issued ≤ n → id = Issuer.idFor kind n → f.client id = none

theorem Tracked.ask_other (h : f.Tracked id) {c : Caller H} {ops : List Operation}
    (asked : List (Asked H)) (hclient : c.objects.stateOf? id = f.client id)
    (hissued : f.caller.objectIds.issued ≤ c.objectIds.issued) (hops : risen id ops = []) :
    Tracked { f with caller := c, up := f.up ++ ops, asked } id where
  stage := by
    have hstage := h.stage
    rw [← hclient] at hstage
    rw [risen_append, hops, List.append_nil]
    exact hstage
  fresh kind n hn hid := hclient.trans (h.fresh kind n (Nat.le_trans hissued hn) hid)

theorem Tracked.ask_create (h : f.Tracked id) (template : Template)
    (interests : Dict String (Interest H)) (asked : List (Asked H)) :
    Tracked { f with
      caller := (f.caller.respond (.create template interests)).after
      up := f.up ++ (f.caller.respond (.create template interests)).sent.toList.map Operation.wire
      asked } id := by
  let issued := (f.caller.objectIds.issue template.kind).1
  have hstate : (f.caller.respond (.create template interests)).after.objects.stateOf? id =
      if id = issued then some .requested else f.client id := by
    rw [Caller.after_objects]
    exact ObjectTable.stateOf?_insert _ _ _ _
  have hissued : (f.caller.respond (.create template interests)).after.objectIds.issued =
      f.caller.objectIds.issued + 1 := by
    rw [Caller.after_objectIds]
    rfl
  have hrising : isRising id
      (Operation.create (Caller.travelling template interests issued)).wire = true ↔ issued = id :=
    isRising_create _
  by_cases heq : id = issued
  · have hclient : f.client id = none := h.fresh template.kind _ (Nat.le_refl _) heq
    have hstage := h.stage
    rw [hclient] at hstage
    refine ⟨?_, fun kind n hn hid => ?_⟩
    · have hnews : risen id ((f.caller.respond (.create template interests)).sent.toList.map
          Operation.wire) = [.create] := risen_cons (hrising.2 heq.symm)
      rw [if_pos heq] at hstate
      change Stage _ (ObjectTable.stateOf? _ _) _ (risen id (_ ++ _)) _
      rw [risen_append, hnews, hstate]
      exact hstage.ask
    · -- A number that is still to come is not the number of this identifier.
      rw [heq] at hid
      have hnumber : f.caller.objectIds.issued = n := Issuer.idFor_injective hid
      change _ ≤ n at hn
      rw [hissued] at hn
      omega
  · refine h.ask_other asked (hstate.trans (if_neg heq)) (by rw [hissued]; omega) ?_
    exact risen_cons_other (Bool.eq_false_iff.2 fun hrise => heq (hrising.1 hrise).symm)

theorem Tracked.ask_destroy (h : f.Tracked id) (hid : id ≠ "") (target : String)
    (asked : List (Asked H)) :
    Tracked { f with
      caller := (f.caller.respond (.destroy target)).after
      up := f.up ++ (f.caller.respond (.destroy target)).sent.toList.map Operation.wire
      asked } id := by
  have hrespond : f.caller.respond (.destroy target) = if f.caller.objects.isLive target
      then ⟨.ok .unit,
        { f.caller with objects := f.caller.objects.setState target .pendingDestroy },
        some (Operation.destroy target)⟩
      else ⟨.error (.unknownObject target), f.caller, none⟩ := rfl
  rw [hrespond]
  split
  · next hlive =>
    have hstate : (f.caller.objects.setState target .pendingDestroy).stateOf? id =
        if id = target then some .pendingDestroy else f.client id := by
      rw [ObjectTable.stateOf?_setState]
      split
      · rcases (ObjectTable.isLive_iff _ _).1 hlive with hstate | hstate <;> rw [hstate] <;> rfl
      · rfl
    have hrising : isRising id (Operation.destroy target).wire = true ↔ target = id := by
      rw [isRising_destroy hid rfl]
      change Option.filter _ (some target) = some id ↔ _
      by_cases hempty : target = ""
      · simp [hempty, Ne.symm hid]
      · simp [Option.filter, hempty]
    by_cases heq : id = target
    · subst heq
      rw [if_pos rfl] at hstate
      have hnews : risen id [(Operation.destroy id).wire] = [.destroy] := risen_cons (hrising.2 rfl)
      refine ⟨?_, fun kind n hn hissued => ?_⟩
      · change Stage _ (ObjectTable.stateOf? (f.caller.objects.setState id .pendingDestroy) id) _
          (risen id (f.up ++ [(Operation.destroy id).wire])) _
        rw [risen_append, hnews, hstate]
        exact h.stage.doom ((ObjectTable.isLive_iff _ _).1 hlive)
      · -- An object that was not issued is not live.
        have hnone : f.caller.objects.stateOf? id = none := h.fresh kind n hn hissued
        have hsome := (ObjectTable.isLive_iff _ _).1 hlive
        rw [hnone] at hsome
        simp at hsome
    · refine h.ask_other asked (hstate.trans (if_neg heq)) (Nat.le_refl _) ?_
      exact risen_cons_other (Bool.eq_false_iff.2 fun hrise => heq (hrising.1 hrise).symm)
  · exact h.ask_other asked rfl (Nat.le_refl _) rfl

theorem Tracked.ask (h : f.Tracked id) (hid : id ≠ "") (request : Request H) (asked : List (Asked H)) :
    Tracked { f with
      caller := (f.caller.respond request).after
      up := f.up ++ (f.caller.respond request).sent.toList.map Operation.wire
      asked } id := by
  have hother : request.concernsObjects = false → Tracked { f with
      caller := (f.caller.respond request).after
      up := f.up ++ (f.caller.respond request).sent.toList.map Operation.wire
      asked } id := by
    intro hspares
    obtain ⟨hobjects, hids, hsent⟩ := f.caller.respond_other hspares
    refine h.ask_other asked (by rw [hobjects]; rfl) (by rw [hids]) ?_
    unfold risen
    rw [List.filter_eq_nil_iff.2, List.map_nil]
    intro o ho
    obtain ⟨op, hop, rfl⟩ := List.mem_map.1 ho
    have hevent := hsent op (Option.mem_toList.1 hop)
    obtain ⟨hcreate, hdestroy, -⟩ := Event.ne_of_sparesObjects hevent
    rw [← Operation.wire_event (Event.settled_of_sparesObjects hevent)] at hcreate hdestroy
    simp [isRising_other hcreate hdestroy]
  cases request with
  | create template interests => exact h.ask_create template interests asked
  | destroy target => exact h.ask_destroy hid target asked
  | updateInterests target changes =>
      have hrespond : f.caller.respond (.updateInterests target changes) =
          if f.caller.objects.isLive target
            then ⟨.ok .unit, f.caller.interesting target changes, some (Operation.updateInterests target
              (changes.mapValues fun change => change.map (·.spec)))⟩
            else ⟨.error (.unknownObject target), f.caller, none⟩ := rfl
      rw [hrespond]
      split
      · refine h.ask_other asked ?_ ?_ ?_
        · change (f.caller.interesting target changes).objects.stateOf? id = _
          unfold Caller.interesting
          split
          · exact ObjectTable.stateOf?_setInterests _ _ _ _
          · rfl
        · change _ ≤ (f.caller.interesting target changes).objectIds.issued
          unfold Caller.interesting
          split <;> exact Nat.le_refl _
        · exact risen_cons_other (isRising_other nofun nofun)
      · exact h.ask_other asked rfl (Nat.le_refl _) rfl
  | _ => exact hother rfl

theorem Tracked.host_move (h : f.Tracked id) (up : List Operation) {host : Host} {deed : Deed}
    {ops : List Operation} (hf : f.Reachable)
    (hstage : Stage (id ∈ f.origin.refused f.deeds ∨ id ∈ f.host.refusedBy deed) (f.client id)
      (host.world.registry.contains id) (risen id up) (fallen id f.down ++ fallen id ops)) :
    Tracked { f with host, up, down := f.down ++ ops, deeds := f.deeds ++ [deed] } id where
  stage := by
    have hrefused : id ∈ f.origin.refused (f.deeds ++ [deed]) ↔
        id ∈ f.origin.refused f.deeds ∨ id ∈ f.host.refusedBy deed := by
      rw [Host.refused_append, ← host_eq hf, List.mem_append]
    rw [fallen_append]
    exact hstage.congr_refused hrefused.symm
  fresh := h.fresh

section Arrival

variable {op : Operation} {rest ops : List Operation} {host : Host}

def StageAfter (f : Flow H) (id : String) (op : Operation) (rest : List Operation) (host : Host)
    (ops : List Operation) : Prop :=
  Stage (id ∈ f.origin.refused f.deeds ∨ id ∈ f.host.refusedBy (.apply op)) (f.client id)
    (host.world.registry.contains id) (risen id rest)
    (fallen id f.down ++ fallen id (ops.map Operation.wire))

variable (hstage : Stage (id ∈ f.origin.refused f.deeds) (f.client id) (f.holds id) (risen id (op :: rest))
  (fallen id f.down))

include hstage

theorem stageAfter_other (hrise : isRising id op = false) (hrefused : id ∉ f.host.refusedBy (.apply op))
    (hheld : host.world.registry.contains id = f.holds id) (hfall : ∀ o ∈ ops, isFalling id o.wire = false) :
    f.StageAfter id op rest host ops := by
  rw [risen_cons_other hrise] at hstage
  unfold StageAfter
  rw [hheld, fallen_wire_eq_nil hfall, List.append_nil]
  exact hstage.congr_refused (by simp [hrefused])

theorem stageAfter_refused {t : Template} (hop : op = (Operation.create t).wire)
    (hrefuses : f.host.refuses op = true) : f.StageAfter id op rest f.host [] := by
  subst hop
  have hby : f.host.refusedBy (.apply (Operation.create t).wire) = [t.id] := by
    rw [Host.refusedBy_apply, if_pos ⟨rfl, hrefuses⟩, Operation.subject_create]
  by_cases heq : t.id = id
  · rw [risen_cons ((isRising_create t).2 heq)] at hstage
    have hrefused : id ∈ f.origin.refused f.deeds ∨ id ∈ f.host.refusedBy (.apply (Operation.create t).wire) := by
      rw [hby, heq]
      exact .inr (List.mem_singleton_self id)
    have hnext := hstage.refuse hrefused
    rw [← List.append_nil (fallen id f.down)] at hnext
    exact hnext
  · refine stageAfter_other hstage (Bool.eq_false_iff.2 (heq ∘ (isRising_create t).1)) ?_ rfl nofun
    rw [hby, List.mem_singleton]
    exact Ne.symm heq

theorem stageAfter_created {t template : Template} (hop : op = (Operation.create t).wire)
    (haccepts : f.host.refuses op = false) (hpayload : op.payload Template.ofJson? = .ok template)
    (hcreated : Host.Created f.host template host ops) : f.StageAfter id op rest host ops := by
  subst hop
  have hby : f.host.refusedBy (.apply (Operation.create t).wire) = [] := Host.refusedBy_of_accepted (.inr haccepts)
  have htemplate : template.id = t.id := (Operation.payload_create hpayload).1
  obtain ⟨handle, hentries⟩ := hcreated.entries
  obtain ⟨data, reported, rfl⟩ := hcreated.sent
  by_cases heq : t.id = id
  · rw [risen_cons ((isRising_create t).2 heq)] at hstage
    have hheld : host.world.registry.contains id = true := by
      change (host.world.registry.entries.get? id).isSome = true
      rw [hentries, if_pos (by rw [htemplate, heq])]
      rfl
    have hfirst := (isFalling_created template.id data).trans (decide_eq_true (htemplate.trans heq))
    unfold StageAfter
    rw [hheld, hby, List.map_cons, fallen_cons hfirst, fallen_wire_eq_nil fun _ => isFalling_reports]
    exact hstage.create.congr_refused (by simp)
  · refine stageAfter_other hstage (Bool.eq_false_iff.2 (heq ∘ (isRising_create t).1)) (by simp [hby]) ?_ ?_
    · change (host.world.registry.entries.get? id).isSome = _
      rw [hentries, if_neg (by rw [htemplate]; exact Ne.symm heq)]
      rfl
    · refine List.forall_mem_cons.2 ⟨?_, fun _ => isFalling_reports⟩
      rw [isFalling_created, htemplate, decide_eq_false heq]

theorem stageAfter_unknown (hid : id ≠ "") (hevent : op.event = .destroy)
    (hunknown : ∀ target, nonEmpty? op.id = some target → f.host.world.registry.entries.get? target = none) :
    f.StageAfter id op rest f.host [] := by
  have hby : f.host.refusedBy (.apply op) = [] := Host.refusedBy_of_accepted (.inl (by simp [hevent]))
  by_cases hrise : isRising id op = true
  · have hheld : f.holds id = false := by
      change (f.host.world.registry.entries.get? id).isSome = false
      rw [hunknown id ((isRising_destroy hid hevent).1 hrise)]
      rfl
    rw [risen_cons hrise, hevent, hheld] at hstage
    change Stage _ _ (f.holds id) _ (_ ++ [])
    rw [hheld, hby, List.append_nil]
    exact hstage.destroyUnknown.congr_refused (by simp)
  · exact stageAfter_other hstage (Bool.eq_false_iff.2 hrise) (by simp [hby]) rfl nofun

theorem stageAfter_destroyed (hid : id ≠ "") (hevent : op.event = .destroy) {target : String}
    (htarget : nonEmpty? op.id = some target) (hheld : (f.host.world.registry.entries.get? target).isSome)
    (hentries : ∀ other, host.world.registry.entries.get? other =
      if other = target then none else f.host.world.registry.entries.get? other)
    (data : Option Json) : f.StageAfter id op rest host [{ Operation.destroyed target with data }] := by
  have hby : f.host.refusedBy (.apply op) = [] := Host.refusedBy_of_accepted (.inl (by simp [hevent]))
  have hlast : host.world.registry.contains id = if id = target then false else f.holds id := by
    change (host.world.registry.entries.get? id).isSome = _
    rw [hentries]
    split <;> rfl
  by_cases heq : id = target
  · subst heq
    have hfirst := (isFalling_destroyed id data).trans (decide_eq_true rfl)
    rw [risen_cons ((isRising_destroy hid hevent).2 htarget), hevent] at hstage
    rw [show f.holds id = true from hheld] at hstage
    unfold StageAfter
    rw [hlast, if_pos rfl, hby, List.map_singleton, fallen_cons hfirst]
    exact hstage.destroy.congr_refused (by simp)
  · refine stageAfter_other hstage ?_ (by simp [hby]) (hlast.trans (if_neg heq)) ?_
    · refine Bool.eq_false_iff.2 fun hrise => heq ?_
      exact Option.some.inj (((isRising_destroy hid hevent).1 hrise).symm.trans htarget)
    · refine List.forall_mem_singleton.2 ?_
      rw [isFalling_destroyed, decide_eq_false (Ne.symm heq)]

end Arrival

theorem Tracked.apply (h : f.Tracked id) (hf : f.Reachable) (hid : id ≠ "") {op : Operation}
    {rest ops : List Operation} {host : Host} (hup : f.up = op :: rest)
    (hcreate : op.event = .create → ∃ t, op = (Operation.create t).wire)
    (happlied : Host.Applied f.host op host ops) :
    Tracked { f with
      host, up := rest, down := f.down ++ ops.map Operation.wire
      deeds := f.deeds ++ [.apply op] } id := by
  have hstage := h.stage
  rw [hup] at hstage
  refine h.host_move _ hf ?_
  change f.StageAfter id op rest host ops
  cases happlied.change with
  | refused hevent hrefuses hk hops =>
      obtain ⟨t, hop⟩ := hcreate hevent
      subst hk hops
      exact stageAfter_refused hstage hop hrefuses
  | created hevent haccepts template hpayload hcreated =>
      obtain ⟨t, hop⟩ := hcreate hevent
      exact stageAfter_created hstage hop haccepts hpayload hcreated
  | unknown hevent hk hops hunknown =>
      subst hk hops
      exact stageAfter_unknown hstage hid hevent hunknown
  | destroyed hevent target htarget hheld hentries hops =>
      obtain ⟨data, rfl⟩ := hops
      exact stageAfter_destroyed hstage hid hevent htarget hheld hentries data
  | kept hnocreate hnodestroy hentries hops =>
      refine stageAfter_other hstage (isRising_other hnocreate hnodestroy) ?_ ?_ fun o ho =>
        isFalling_of_settled (happlied.settled o ho) (hops o ho).1 (hops o ho).2
      · rw [Host.refusedBy_of_accepted (.inl hnocreate)]
        exact List.not_mem_nil
      · change (host.world.registry.entries.get? id).isSome = _
        rw [hentries, Option.isSome_map]
        rfl

theorem Tracked.act (h : f.Tracked id) (hf : f.Reachable) {deed : Deed} (hown : deed.IsOwn)
    {host : Host} {ops : List Operation} (hdone : Host.Done f.host deed host ops)
    (hregister : ∀ handle, deed ≠ .register id handle) :
    Tracked { f with
      host, down := f.down ++ ops.map Operation.wire, deeds := f.deeds ++ [deed] } id := by
  refine h.host_move f.up hf ?_
  have hheld : host.world.registry.contains id = f.holds id :=
    congrArg Option.isSome (hdone.entries id hregister)
  have hby : f.host.refusedBy deed = [] := by
    cases deed with
    | apply op => exact hown.elim
    | _ => rfl
  have hfall : ∀ o ∈ ops, isFalling id o.wire = false := fun o ho =>
    isFalling_of_settled (hdone.settled o ho) (hdone.sent o ho).1 (hdone.sent o ho).2.1
  rw [hheld, hby, fallen_wire_eq_nil hfall, List.append_nil]
  exact h.stage.congr_refused (by simp)

theorem Tracked.hear (h : f.Tracked id) {op : Operation} {rest : List Operation}
    (hdown : f.down = op :: rest) (hevent : op.event ≠ .destroyed)
    (ran : List (Option String × H × Occasion)) :
    Tracked { f with caller := f.caller.onset op, down := rest, ran } id := by
  have hstate := f.caller.stateOf?_onset op id
  have hstage := h.stage
  rw [hdown] at hstage
  refine ⟨?_, fun kind n hn hid => ?_⟩
  · change Stage _ ((f.caller.onset op).objects.stateOf? id) _ _ _
    rw [hstate]
    split
    · next hcreated =>
      rw [fallen_cons (by simp [isFalling, hcreated]), hcreated.1] at hstage
      exact hstage.hearCreated
    · next hother =>
      rw [fallen_cons_other (by simp_all [isFalling])] at hstage
      exact hstage
  · rw [Caller.onset_objectIds] at hn
    have hnone : f.caller.objects.stateOf? id = none := h.fresh kind n hn hid
    refine hstate.trans ?_
    rw [hnone]
    split <;> rfl

theorem Tracked.close (h : f.Tracked id) {op : Operation} {rest : List Operation}
    (hdown : f.down = op :: rest) (hevent : op.event = .destroyed) :
    Tracked { f with caller := f.caller.close op, down := rest } id := by
  have hstate := f.caller.stateOf?_close op id
  have hstage := h.stage
  rw [hdown] at hstage
  refine ⟨?_, fun kind n hn hid => ?_⟩
  · change Stage _ ((f.caller.close op).objects.stateOf? id) _ _ _
    rw [hstate]
    split
    · next hdestroyed =>
      rw [fallen_cons (by simp [isFalling, hdestroyed]), hdestroyed.1] at hstage
      exact hstage.hearDestroyed
    · next hother =>
      rw [fallen_cons_other (by simp_all [isFalling])] at hstage
      exact hstage
  · rw [Caller.close_objectIds] at hn
    have hnone : f.caller.objects.stateOf? id = none := h.fresh kind n hn hid
    refine hstate.trans ?_
    rw [hnone]
    split <;> rfl

theorem Tracked.ship (h : f.Tracked id) (hf : f.Reachable) :
    Tracked { f with
      caller := f.caller.collect.2, host := f.host.perform .collect
      deeds := f.deeds ++ [.collect] } id := by
  have hmove : Tracked { f with
      host := f.host.perform .collect, down := f.down ++ [], deeds := f.deeds ++ [.collect] } id := by
    refine h.host_move f.up hf ?_
    change Stage _ _ (f.holds id) _ (_ ++ [])
    rw [List.append_nil]
    exact h.stage.congr_refused (by simp [Host.refusedBy])
  rw [List.append_nil] at hmove
  exact ⟨hmove.stage, hmove.fresh⟩

-- What is on its way to the host with that event is the creation of a template.
theorem up_create (hf : f.Reachable) :
    ∀ op ∈ f.up, op.event = .create → ∃ t, op = (Operation.create t).wire := by
  induction hf with
  | start => exact fun _ h => nomatch h
  | @move f g hf hmove ih =>
      cases hmove with
      | ask request hplain =>
          intro op hop hevent
          rcases List.mem_append.1 hop with hop | hop
          · exact ih op hop hevent
          · obtain ⟨sent, hsent, rfl⟩ := List.mem_map.1 hop
            have hmem := Option.mem_toList.1 hsent
            have hother : request.concernsObjects = false →
                ∃ t, sent.wire = (Operation.create t).wire := by
              intro hspares
              have hspare := (f.caller.respond_other hspares).sent sent hmem
              rw [Operation.wire_event (Event.settled_of_sparesObjects hspare)] at hevent
              exact absurd hevent (Event.ne_of_sparesObjects hspare).1
            cases request with
            | create template interests =>
                cases hmem
                exact ⟨_, rfl⟩
            | destroy target =>
                rw [Caller.sent_whenLive hmem] at hevent
                cases hevent
            | updateInterests target changes =>
                rw [Caller.sent_whenLive hmem] at hevent
                cases hevent
            | _ => exact hother rfl
      | apply op rest ops hup happlied =>
          exact fun o ho => ih o (hup ▸ List.mem_cons_of_mem _ ho)
      | _ => exact ih

theorem tracked (hf : f.Reachable) (hid : id ≠ "") (hown : ∀ handle, .register id handle ∉ f.deeds) :
    f.Tracked id := by
  induction hf with
  | start settings host down hregistry hanimator hdown =>
      refine ⟨?_, fun _ _ _ _ => rfl⟩
      have hheld : host.world.registry.contains id = false := by
        change (host.world.registry.entries.get? id).isSome = false
        rw [hregistry]
        rfl
      have hnews : fallen id down = [] :=
        fallen_eq_nil fun o ho => by simp [isFalling, hdown o ho]
      change Stage _ none (host.world.registry.contains id) [] (fallen id down)
      rw [hheld, hnews]
      exact .absent List.not_mem_nil
  | @move f g hf hmove ih =>
      cases hmove with
      | ask request hplain => exact (ih hown).ask hid request _
      | apply op rest ops hup happlied =>
          have hbefore := ih fun handle hmem => hown handle (List.mem_append_left _ hmem)
          refine hbefore.apply hf hid hup (up_create hf op ?_) happlied
          rw [hup]
          exact List.mem_cons_self
      | act deed ops hdeed hdone =>
          have hbefore := ih fun handle hmem => hown handle (List.mem_append_left _ hmem)
          refine hbefore.act hf hdeed hdone fun handle heq => hown handle ?_
          rw [heq]
          exact List.mem_append_right _ (List.mem_singleton_self _)
      | hear op rest hdown hevent => exact (ih hown).hear hdown hevent _
      | close op rest hdown hevent => exact (ih hown).close hdown hevent
      | ship => exact (ih fun handle hmem => hown handle (List.mem_append_left _ hmem)).ship hf

theorem ne_empty_of_issued (hf : f.Reachable) {template : Template}
    {interests : Dict String (Interest H)}
    (hasked : ⟨.create template interests, .ok (.id id)⟩ ∈ f.asked) : id ≠ "" := by
  induction hf with
  | start => cases hasked
  | @move f g hf hmove ih =>
      cases hmove with
      | ask request hplain =>
          rcases List.mem_append.1 hasked with hasked | hasked
          · exact ih hasked
          · have hnew := List.mem_singleton.1 hasked
            injection hnew with hrequest hreply
            rw [← hrequest] at hreply
            injection hreply with hreply
            injection hreply with hid
            rw [hid]
            exact Issuer.idFor_ne_empty _ _
      | _ => exact ih hasked

end Tracking

end Flow

namespace Session

variable {H : Type} {s : Session H}

def client (s : Session H) (id : String) : Option Lifecycle := s.caller.objects.stateOf? id

def holds (s : Session H) (id : String) : Bool := s.host.world.registry.contains id

-- An object that is active at the caller is at the host, and what is at the host is tracked by the
-- caller. With nothing on its way the host holds what is active, and of the tracked objects the
-- others are those that it refused to create.
theorem object_tables_agree (hs : s.Reachable) {id : String}
    (hissued : ∃ template interests, ⟨.create template interests, .ok (.id id)⟩ ∈ s.asked)
    (hown : ∀ handle, .register id handle ∉ s.deeds) :
    (s.client id = some .active → s.holds id = true) ∧
      (s.holds id = true → (s.client id).isSome) ∧
      (s.Quiet → (s.holds id = true ↔ s.client id = some .active) ∧
        (s.client id = some .requested ∨ s.client id = some .pendingDestroy ↔
          (s.client id).isSome ∧ id ∈ s.origin.refused s.deeds)) := by
  obtain ⟨hf, -⟩ := hs.flow
  obtain ⟨template, interests, hasked⟩ := hissued
  have hstage : Stage (id ∈ s.origin.refused s.deeds) (s.client id) (s.holds id)
      (Flow.risen id s.rising) (Flow.fallen id s.falling) :=
    (Flow.tracked hf (Flow.ne_empty_of_issued hf hasked) hown).stage
  refine ⟨fun hactive => ?_, fun hheld => ?_, fun hquiet => ?_⟩
  · rw [hactive] at hstage
    exact hstage.held_of_active
  · rw [hheld] at hstage
    exact hstage.tracked_of_held
  · obtain ⟨hrising, hfalling⟩ := hs.quiet_flow hquiet
    rw [hrising, hfalling] at hstage
    exact hstage.quiet

section Settled

def ghost : Template := { prefab := some "ghost" }

def settledStart : Session Unit := (start {} { announceOnAttach := false } {}).ship

-- The first of the two objects is one that the host has no prefab for.
def settledAsked : Session Unit := ((settledStart.ask (.create ghost [])).ship.ask (.create {} [])).ship

def ghostOperation : Operation := Operation.create (Caller.travelling (H := Unit) ghost [] "ghost_0")

def plainOperation : Operation := Operation.create (Caller.travelling (H := Unit) {} [] "Object_1")

def settledRefused : Session Unit :=
  (settledAsked.takeOps [ghostOperation.wire] [Batch.encode [plainOperation]]).ship

def settledCreated : Session Unit := (settledRefused.takeOps [plainOperation.wire] []).ship

def settledLast : Session Unit :=
  hearAll (fun _ _ _ => .done) 1 { settledCreated with down := [] } [(Operation.created "Object_1").wire]

-- A session in which one object was refused and the other created, and all has been heard.
def settled : Session Unit := settledLast.ship

private theorem settledStart_reachable : settledStart.Reachable := .start _ _ _

-- What is sent, and what the two ends make of it, batch by batch.
private theorem settled_run :
    [ghostOperation, plainOperation, Operation.created "Object_1"].all
      (fun op => op.data.all fun data => data.depth ≤ 125) = true ∧
    ((settledAsked.takeOps [ghostOperation.wire] [Batch.encode [plainOperation]]).host.outbox.texts = [] ∧
      (settledRefused.takeOps [plainOperation.wire] []).host.outbox.texts =
        [Operation.created "Object_1"].map Operation.text ∧
      (settledRefused.takeOps [plainOperation.wire] []).host.outbox.IsSingle) ∧
    (settledLast.caller.outbox.texts = [] ∧ settled.caller.outbox.pending = [] ∧
      settled.host.outbox.pending = [] ∧ settled.up = [] ∧ settled.down = []) ∧
    settled.holds "Object_1" = true ∧ settled.holds "ghost_0" = false ∧
      settled.client "ghost_0" = some .requested := by
  decide +kernel

private theorem settled_fits :
    ∀ op ∈ [ghostOperation, plainOperation, Operation.created "Object_1"], op.Fits :=
  fits_of_all settled_run.1

private theorem settledAsked_reachable : settledAsked.Reachable ∧
    settledAsked.up = [Batch.encode [ghostOperation], Batch.encode [plainOperation]] := by
  have hfirst : (settledStart.ask (.create ghost [])).ship.Reachable := by
    refine settledStart_reachable.ask (by trivial) fun op hop => ?_
    cases hop
    exact settled_fits ghostOperation (by simp)
  have hup : (settledStart.ask (.create ghost [])).ship.up = [Batch.encode [ghostOperation]] :=
    ask_up settledStart_reachable.flow.2.caller (by trivial) rfl rfl rfl rfl rfl
  refine ⟨hfirst.ask (by trivial) fun op hop => ?_, ?_⟩
  · cases hop
    exact settled_fits plainOperation (by simp)
  · refine (ask_up hfirst.flow.2.caller (by trivial) rfl rfl rfl rfl rfl).trans ?_
    rw [hup]
    rfl

private theorem settledRefused_reachable : settledRefused.Reachable := by
  obtain ⟨hasked, hup⟩ := settledAsked_reachable
  have hops : opsOf (Batch.encode [ghostOperation]) = [ghostOperation.wire] :=
    opsOf_encode fun op hop => settled_fits op (by simp [List.mem_singleton.1 hop])
  have hnone : (settledAsked.takeOps [ghostOperation.wire] [Batch.encode [plainOperation]]).host.outbox.texts =
      ([] : List Operation).map Operation.text := settled_run.2.1.1
  exact hasked.takeOps hup hops (List.cons_ne_nil _ _) hnone (List.forall_mem_nil _)

private theorem settledCreated_reachable : settledCreated.Reachable ∧
    settledCreated.down = [Batch.encode [Operation.created "Object_1"]] := by
  obtain ⟨-, htexts, hsingle⟩ := settled_run.2.1
  have hops : opsOf (Batch.encode [plainOperation]) = [plainOperation.wire] :=
    opsOf_encode fun op hop => settled_fits op (by simp [List.mem_singleton.1 hop])
  refine ⟨settledRefused_reachable.takeOps rfl hops (List.cons_ne_nil _ _) htexts fun op hop => ?_, ?_⟩
  · exact settled_fits op (by simp [List.mem_singleton.1 hop])
  · exact ship_down hsingle htexts

theorem settled_reachable : settled.Reachable := by
  obtain ⟨hcreated, hdown⟩ := settledCreated_reachable
  have hops : opsOf (Batch.encode [Operation.created "Object_1"]) = [(Operation.created "Object_1").wire] :=
    opsOf_encode fun op hop => settled_fits op (by simp [List.mem_singleton.1 hop])
  exact hcreated.hearOps hdown hops (fun _ _ _ => trivial) settled_run.2.2.1.1

theorem settled_quiet : settled.Quiet := by
  obtain ⟨-, hcaller, hhost, hup, hdown⟩ := settled_run.2.2.1
  exact ⟨hcaller, hhost, hup, hdown⟩

theorem settled_own (id : String) (handle : Handle) : .register id handle ∉ settled.deeds := by
  have hdeeds : settled.deeds = [.collect, .collect, .collect, .apply ghostOperation.wire, .flush, .collect,
      .apply plainOperation.wire, .flush, .collect, .collect] := rfl
  rw [hdeeds]
  simp

theorem settled_issued : ∀ id ∈ ["ghost_0", "Object_1"],
    ∃ template interests, ⟨.create template interests, .ok (.id id)⟩ ∈ settled.asked := by
  have hasked : settled.asked =
      [⟨.create ghost [], .ok (.id "ghost_0")⟩, ⟨.create {} [], .ok (.id "Object_1")⟩] := rfl
  rw [hasked]
  exact List.forall_mem_cons.2 ⟨⟨_, _, List.mem_cons_self⟩, List.forall_mem_singleton.2
    ⟨_, _, List.mem_cons_of_mem _ List.mem_cons_self⟩⟩

-- The host holds the one object, which is active, and has refused the other, which stays requested.
theorem object_tables_agree_settled :
    settled.Quiet ∧
    (settled.holds "Object_1" = true ∧ settled.client "Object_1" = some .active) ∧
    settled.holds "ghost_0" = false ∧ settled.client "ghost_0" = some .requested ∧
      "ghost_0" ∈ settled.origin.refused settled.deeds := by
  obtain ⟨-, -, hquiet⟩ :=
    object_tables_agree settled_reachable (settled_issued "Object_1" (by simp)) (settled_own "Object_1")
  obtain ⟨-, -, hghost⟩ :=
    object_tables_agree settled_reachable (settled_issued "ghost_0" (by simp)) (settled_own "ghost_0")
  obtain ⟨hobject, habsent, hrequested⟩ := settled_run.2.2.2
  have hactive := (hquiet settled_quiet).1.1 hobject
  have hrefused := ((hghost settled_quiet).2.1 (.inl hrequested)).2
  exact ⟨settled_quiet, ⟨hobject, hactive⟩, habsent, hrequested, hrefused⟩

end Settled

end Session

end SceneLink
