import SceneLink.Proofs.Caller.Refusal
import SceneLink.Proofs.Operation.Payload

namespace SceneLink

-- What can be asked of an object while it is live.
def Event.IsTouch : Event → Prop
  | .update | .query | .animate | .updateInterests => True
  | _ => False

theorem Event.IsTouch.ne {event : Event} (h : event.IsTouch) : event ≠ .create ∧ event ≠ .destroy := by
  constructor
  · rintro rfl
    exact h
  · rintro rfl
    exact h

-- What is told of one object, from first to last.
inductive Lifespan : List Event → Prop
  | unborn : Lifespan []
  | begun {touches : List Event} (htouches : ∀ event ∈ touches, event.IsTouch) :
      Lifespan (.create :: touches)
  | ended {touches : List Event} (htouches : ∀ event ∈ touches, event.IsTouch) :
      Lifespan (.create :: (touches ++ [.destroy]))

theorem Lifespan.count_create {past : List Event} (h : Lifespan past) : past.count .create ≤ 1 := by
  have hnone {touches : List Event} (htouches : ∀ event ∈ touches, event.IsTouch) :
      touches.count .create = 0 :=
    List.count_eq_zero.2 fun hmem => (htouches _ hmem).ne.1 rfl
  cases h with
  | unborn => exact Nat.zero_le _
  | begun htouches => rw [List.count_cons_self, hnone htouches]
  | ended htouches =>
      rw [List.count_cons_self, List.count_append, hnone htouches]
      decide

-- How far an object has come.
inductive Standing where
  -- Never asked for.
  | unborn
  | requested
  | active
  | ending
  | forgotten

namespace Standing

def rank : Standing → Nat
  | unborn => 0
  | requested => 1
  | active => 2
  | ending => 3
  | forgotten => 4

-- An object that is not tracked is forgotten if it was ever told of.
def of (past : List Event) : Option Lifecycle → Standing
  | some .requested => requested
  | some .active => active
  | some .pendingDestroy => ending
  | none => if past = [] then unborn else forgotten

theorem of_some (past more : List Event) (state : Lifecycle) :
    of past (some state) = of more (some state) := by
  cases state <;> rfl

theorem rank_le_forgotten (standing : Standing) : standing.rank ≤ forgotten.rank := by
  cases standing <;> decide

end Standing

namespace Operation

-- The object that an operation of a caller is about, if it is about one: a template carries its own
-- identifier.
def about? (op : Operation) : Option String :=
  if op.event = .create then ((op.data.getD .null).field? "id").bind Json.str? else op.id

theorem about?_create (t : Template) : (create t).about? = some t.id := by
  have hevent : (create t).event = .create := rfl
  unfold about?
  rw [if_pos hevent]
  change (t.toJson.field? "id").bind Json.str? = some t.id
  rw [t.toJson_id]
  rfl

theorem about?_of_ne {op : Operation} (h : op.event ≠ .create) : op.about? = op.id := if_neg h

def told (id : String) (ops : List Operation) : List Event :=
  (ops.filter (·.about? = some id)).map (·.event)

def created? (ops : List Operation) : List (Option String) :=
  (ops.filter (·.event = .create)).map about?

section Told

variable {id : String} {op : Operation} {ops more : List Operation}

theorem told_append : told id (ops ++ more) = told id ops ++ told id more := by
  unfold told
  rw [List.filter_append, List.map_append]

theorem told_single (h : op.about? = some id) : told id [op] = [op.event] := by
  unfold told
  rw [List.filter_cons_of_pos (by simp [h])]
  rfl

theorem told_other (h : op.about? ≠ some id) : told id [op] = [] := by
  unfold told
  rw [List.filter_cons_of_neg (by simp [h])]
  rfl

theorem count_created? : (created? ops).count (some id) = (told id ops).count .create := by
  have hcreated : (created? ops).count (some id) =
      ops.countP fun op => op.about? = some id ∧ op.event = .create := by
    unfold created?
    rw [List.count, List.countP_map, List.countP_filter]
    apply List.countP_congr
    intro op _
    simp
  have htold : (told id ops).count .create =
      ops.countP fun op => op.about? = some id ∧ op.event = .create := by
    unfold told
    rw [List.count, List.countP_map, List.countP_filter]
    apply List.countP_congr
    intro op _
    simp [and_comm]
  rw [hcreated, htold]

end Told

end Operation

-- The requests that begin or end the life of an object.
def Request.isVital {H : Type} : Request H → Bool
  | .create .. | .destroy _ => true
  | _ => false

namespace Caller

open Operation

variable {H N : Type}

section Sends

variable {c d : Caller H} {request : Request H}

-- What a request can send: only what begins a life is about an object that is not live.
inductive Sends (c : Caller H) : Request H → Operation → Prop
  | creation (template : Template) (interests : Dict String (Interest H)) :
      Sends c (.create template interests)
        (Operation.create (travelling template interests (c.objectIds.issue template.kind).1))
  | touch {request : Request H} {op : Operation} (hvital : request.isVital = false) {id : String}
      (hid : op.id = some id) (htouch : op.event.IsTouch) (hlive : c.objects.isLive id = true) :
      Sends c request op
  | ending {id : String} (hlive : c.objects.isLive id = true) :
      Sends c (.destroy id) (Operation.destroy id)
  | general {request : Request H} {op : Operation} (hvital : request.isVital = false)
      (hid : op.id = none) (hevent : op.event ≠ .create) : Sends c request op

theorem sends_whenLive {id : String} {reply : Reply} {op : Operation}
    (h : c.objects.isLive id = true → Sends c request op) :
    ∀ o ∈ (c.whenLive id ⟨reply, d, some op⟩).sent, Sends c request o := by
  intro o ho
  unfold whenLive at ho
  split at ho
  · next hlive =>
    cases ho
    exact h hlive
  · cases ho

theorem sends_respond (c : Caller H) (request : Request H) :
    ∀ op ∈ (c.respond request).sent, Sends c request op := by
  cases request with
  | create template interests =>
      intro op hop
      cases hop
      exact .creation template interests
  | update id assignments => exact sends_whenLive (.touch rfl rfl trivial)
  | query id paths handler => exact sends_whenLive (.touch rfl rfl trivial)
  | queryPaths id pairs handler =>
      rw [respond_queryPaths]
      split
      · exact sends_whenLive (.touch rfl rfl trivial)
      · exact fun _ h => nomatch h
  | animate id animations => exact sends_whenLive (.touch rfl rfl trivial)
  | destroy id => exact sends_whenLive .ending
  | updateInterests id changes => exact sends_whenLive (.touch rfl rfl trivial)
  | setGlobals globals =>
      intro op hop
      cases hop
      exact .general rfl rfl fun h => nomatch h
  | log line =>
      intro op hop
      cases hop
      exact .general rfl rfl fun h => nomatch h
  | _ => exact fun _ h => nomatch h

-- What is created is told by its identifier.
theorem Sends.about_create {op : Operation} (h : Sends c request op) (hevent : op.event = .create) :
    ∃ id, op.about? = some id := by
  cases h with
  | creation template interests => exact ⟨_, about?_create _⟩
  | touch _ _ htouch => exact (htouch.ne.1 hevent).elim
  | ending => cases hevent
  | general _ _ hne => exact (hne hevent).elim

end Sends

section Fates

variable {c : Caller H}

-- What an act does to one object, with what it tells of the object.
inductive Fate (id : String) (c : Caller H) : List Event → Caller H → Prop
  | spared {d : Caller H} (hstate : d.objects.stateOf? id = c.objects.stateOf? id) : Fate id c [] d
  | created {d : Caller H} (kind : String) (hid : id = Issuer.idFor kind c.objectIds.issued)
      (hissued : c.objectIds.issued < d.objectIds.issued)
      -- If the creation cannot be sent, the object is forgotten at once.
      (hstate : d.objects.stateOf? id = some .requested ∨ d.objects.stateOf? id = none) :
      Fate id c [.create] d
  | touched {d : Caller H} {event : Event} (htouch : event.IsTouch)
      (hlive : c.objects.isLive id = true) (hstate : d.objects.stateOf? id = c.objects.stateOf? id) :
      Fate id c [event] d
  | doomed {d : Caller H} (hlive : c.objects.isLive id = true)
      (hstate : d.objects.stateOf? id = some .pendingDestroy) : Fate id c [.destroy] d
  | confirmed {d : Caller H} (hbefore : c.objects.stateOf? id = some .requested)
      (hstate : d.objects.stateOf? id = some .active) : Fate id c [] d
  | forgotten {d : Caller H} (hstate : d.objects.stateOf? id = none) : Fate id c [] d

theorem act_ask (c : Caller H) (request : Request H) (hplain : request.IsPlain) :
    c.act (.ask request hplain) = (c.respond request).after ∨
      (∃ answer, (c.respond request).reply = .ok answer) ∧
        c.act (.ask request hplain) = (c.restored request).setOutbox (c.respond request).after.outbox := by
  have houtcome := perform_outcome idle hplain c
  change (perform idle request c).value.2 = _ ∨ _ ∧ (perform idle request c).value.2 = _
  revert houtcome
  generalize (perform idle request c).value = out
  intro houtcome
  cases houtcome with
  | response => exact .inl rfl
  | refused e outbox hr => exact .inr ⟨hr.2, by rw [hr.1]⟩

-- Every object stands where it stood, and no identifier was issued.
def Spares (c d : Caller H) : Prop :=
  (∀ id, d.objects.stateOf? id = c.objects.stateOf? id) ∧ d.objectIds = c.objectIds

theorem spares_refl (c : Caller H) : c.Spares c := ⟨fun _ => rfl, rfl⟩

theorem spares_interesting (c : Caller H) (id : String) (changes : HandlerChanges H) :
    c.Spares (c.interesting id changes) := by
  unfold interesting
  split
  · exact ⟨fun other => ObjectTable.stateOf?_setInterests _ _ other _, rfl⟩
  · exact c.spares_refl

theorem spares_ask {request : Request H} (hplain : request.IsPlain) (hvital : request.isVital = false) :
    c.Spares (c.act (.ask request hplain)) := by
  rcases c.act_ask request hplain with hact | ⟨-, hact⟩
  · rw [hact]
    cases hconcerns : request.concernsObjects with
    | false =>
        obtain ⟨hobjects, hids, -⟩ := c.respond_other hconcerns
        exact ⟨fun id => by rw [hobjects], hids⟩
    | true =>
        cases request with
        | updateInterests id changes =>
            obtain ⟨outbox, hafter⟩ := after_eq (c.respond (.updateInterests id changes))
            rw [hafter]
            exact whenLive_caller (p := c.Spares) c.spares_refl (c.spares_interesting id changes)
        | create => cases hvital
        | destroy => cases hvital
        | _ => cases hconcerns
  · rw [hact]
    cases request with
    | updateInterests id changes => exact c.spares_interesting id changes
    | create => cases hvital
    | destroy => cases hvital
    | _ => exact c.spares_refl

-- The operation that an act encodes, if it encodes one.
def encodes (c : Caller H) : Act H → Option Operation
  | .ask request _ => (c.respond request).sent
  | _ => none

theorem fate_create (c : Caller H) (template : Template) (interests : Dict String (Interest H))
    (id : String) : Fate id c (told id (c.encodes (.ask (.create template interests) trivial)).toList)
      (c.act (.ask (.create template interests) trivial)) := by
  let fresh := (c.objectIds.issue template.kind).1
  have habout : (Operation.create (travelling template interests fresh)).about? = some fresh :=
    about?_create _
  change Fate id c (told id [Operation.create (travelling template interests fresh)]) _
  have hact := c.act_ask (.create template interests) trivial
  by_cases heq : id = fresh
  · rw [told_single (heq ▸ habout)]
    refine .created template.kind heq ?_ ?_
    · rcases hact with hact | ⟨-, hact⟩ <;> rw [hact] <;> exact Nat.lt_succ_self _
    · rcases hact with hact | ⟨-, hact⟩
      · rw [hact, after_objects]
        exact .inl ((ObjectTable.stateOf?_insert _ _ _ _).trans (if_pos heq))
      · rw [hact]
        exact .inr ((ObjectTable.stateOf?_erase _ _ _).trans (if_pos heq))
  · rw [told_other (by rw [habout]; exact fun h => heq (Option.some.inj h).symm)]
    refine .spared ?_
    have htracked : (c.tracking template interests).objects.stateOf? id = c.objects.stateOf? id :=
      (ObjectTable.stateOf?_insert _ _ _ _).trans (if_neg heq)
    rcases hact with hact | ⟨-, hact⟩
    · rw [hact, after_objects]
      exact htracked
    · rw [hact]
      exact ((ObjectTable.stateOf?_erase _ _ _).trans (if_neg heq)).trans htracked

theorem fate_destroy (c : Caller H) (target id : String) :
    Fate id c (told id (c.encodes (.ask (.destroy target) trivial)).toList)
      (c.act (.ask (.destroy target) trivial)) := by
  have hact := c.act_ask (.destroy target) trivial
  change Fate id c (told id (c.respond (.destroy target)).sent.toList) _
  cases hlive : c.objects.isLive target with
  | false =>
      have hrefused : c.respond (.destroy target) = ⟨.error (.unknownObject target), c, none⟩ :=
        if_neg (by rw [hlive]; exact Bool.false_ne_true)
      rw [hrefused] at hact ⊢
      rcases hact with hact | ⟨⟨answer, hreply⟩, -⟩
      · rw [hact]
        exact .spared rfl
      · cases hreply
  | true =>
      have haccepted : c.respond (.destroy target) = ⟨.ok .unit,
          { c with objects := c.objects.setState target .pendingDestroy },
          some (Operation.destroy target)⟩ := if_pos hlive
      -- Whether the operation can be sent or not, the object is marked.
      have hobjects : (c.act (.ask (.destroy target) trivial)).objects =
          c.objects.setState target .pendingDestroy := by
        rcases hact with hact | ⟨-, hact⟩
        · rw [hact, haccepted]
          rfl
        · rw [hact]
          rfl
      have hstate := ObjectTable.stateOf?_setState c.objects target id .pendingDestroy
      rw [← hobjects] at hstate
      rw [haccepted]
      by_cases heq : id = target
      · subst heq
        have hmarked : (c.objects.stateOf? id).map (fun _ => Lifecycle.pendingDestroy) =
            some .pendingDestroy := by
          rcases (ObjectTable.isLive_iff _ _).1 hlive with h | h <;> rw [h] <;> rfl
        rw [if_pos rfl, hmarked] at hstate
        rw [Option.toList_some, told_single (by rfl)]
        exact .doomed hlive hstate
      · rw [if_neg heq] at hstate
        have habout : (Operation.destroy target).about? ≠ some id := fun h =>
          heq (Option.some.inj h).symm
        rw [Option.toList_some, told_other habout]
        exact .spared hstate

theorem fate_ask {request : Request H} (hplain : request.IsPlain) (hvital : request.isVital = false)
    (id : String) : Fate id c (told id (c.encodes (.ask request hplain)).toList)
      (c.act (.ask request hplain)) := by
  have hstate := (spares_ask (c := c) hplain hvital).1 id
  change Fate id c (told id (c.respond request).sent.toList) _
  cases hsent : (c.respond request).sent with
  | none => exact .spared hstate
  | some op =>
      rw [Option.toList_some]
      by_cases habout : op.about? = some id
      · rw [told_single habout]
        cases c.sends_respond request op hsent with
        | creation => cases hvital
        | ending => cases hvital
        | touch _ hid htouch hlive =>
            rw [about?_of_ne htouch.ne.1, hid] at habout
            exact .touched htouch (Option.some.inj habout ▸ hlive) hstate
        | general _ hid hevent =>
            rw [about?_of_ne hevent, hid] at habout
            cases habout
      · rw [told_other habout]
        exact .spared hstate

theorem fate_act (c : Caller H) (a : Act H) (id : String) :
    Fate id c (told id (c.encodes a).toList) (c.act a) := by
  cases a with
  | ask request hplain =>
      cases hvital : request.isVital with
      | false => exact fate_ask hplain hvital id
      | true =>
          cases request with
          | create template interests => exact c.fate_create template interests id
          | destroy target => exact c.fate_destroy target id
          | _ => cases hvital
  | rewire transport => exact .spared rfl
  | onset op =>
      have hstate := c.stateOf?_onset op id
      split at hstate
      · cases hbefore : c.objects.stateOf? id with
        | none =>
            rw [hbefore] at hstate
            exact .spared (hstate.trans hbefore.symm)
        | some state =>
            rw [hbefore] at hstate
            by_cases hrequested : state = .requested
            · subst hrequested
              exact .confirmed hbefore hstate
            · rw [Option.map_some, if_neg hrequested] at hstate
              exact .spared (hstate.trans hbefore.symm)
      · exact .spared hstate
  | close op =>
      have hstate := c.stateOf?_close op id
      split at hstate
      · exact .forgotten hstate
      · exact .spared hstate

theorem objectIds_ask (c : Caller H) {request : Request H} (hplain : request.IsPlain)
    (hcreate : ∀ template interests, request ≠ .create template interests) :
    (c.act (.ask request hplain)).objectIds = c.objectIds := by
  cases hvital : request.isVital with
  | false => exact (spares_ask hplain hvital).2
  | true =>
      cases request with
      | create template interests => exact absurd rfl (hcreate template interests)
      | destroy target =>
          rcases c.act_ask (.destroy target) hplain with hact | ⟨-, hact⟩
          · rw [hact, after_objectIds]
            exact whenLive_caller (p := fun d => d.objectIds = c.objectIds) rfl rfl
          · rw [hact]
            rfl
      | _ => cases hvital

theorem objectIds_create (c : Caller H) (template : Template) (interests : Dict String (Interest H))
    (hplain : (Request.create template interests).IsPlain) :
    (c.act (.ask (.create template interests) hplain)).objectIds =
      (c.objectIds.issue template.kind).2 := by
  rcases c.act_ask (.create template interests) hplain with hact | ⟨-, hact⟩
  · rw [hact, after_objectIds]
    rfl
  · rw [hact]
    rfl

theorem issued_act (c : Caller H) (a : Act H) : c.objectIds.issued ≤ (c.act a).objectIds.issued := by
  have hkept : (c.act a).objectIds = c.objectIds → c.objectIds.issued ≤ (c.act a).objectIds.issued :=
    fun h => Nat.le_of_eq (congrArg Issuer.issued h.symm)
  cases a with
  | ask request hplain =>
      cases request with
      | create template interests =>
          rw [objectIds_create]
          exact Nat.le_succ _
      | _ => exact hkept (c.objectIds_ask hplain fun _ _ => nofun)
  | rewire transport => exact Nat.le_refl _
  | onset op => exact hkept (c.onset_objectIds op)
  | close op => exact hkept (c.close_objectIds op)

end Fates

section Lives

variable {c d : Caller H} {id : String} {past events : List Event}

-- What was told of an object, for each way in which it may be tracked.
inductive Lived : Option Lifecycle → List Event → Prop
  | unborn : Lived none []
  | begun {state : Lifecycle} (hstate : state ≠ .pendingDestroy) {touches : List Event}
      (htouches : ∀ event ∈ touches, event.IsTouch) : Lived (some state) (.create :: touches)
  | ending {touches : List Event} (htouches : ∀ event ∈ touches, event.IsTouch) :
      Lived (some .pendingDestroy) (.create :: (touches ++ [.destroy]))
  | forgotten {past : List Event} (hpast : past ≠ []) (hlife : Lifespan past) : Lived none past

theorem Lived.lifespan {state : Option Lifecycle} (h : Lived state past) : Lifespan past := by
  cases h with
  | unborn => exact .unborn
  | begun _ htouches => exact .begun htouches
  | ending htouches => exact .ended htouches
  | forgotten _ hlife => exact hlife

theorem Lived.of_nil {state : Option Lifecycle} (h : Lived state []) : state = none := by
  cases h <;> rfl

-- Of a live object only its creation was told and what was asked of it since.
theorem Lived.of_live (h : Lived (c.objects.stateOf? id) past) (hlive : c.objects.isLive id = true) :
    ∃ state touches, c.objects.stateOf? id = some state ∧ state ≠ .pendingDestroy ∧
      past = .create :: touches ∧ ∀ event ∈ touches, event.IsTouch := by
  rcases (ObjectTable.isLive_iff _ _).1 hlive with hstate | hstate
  · rw [hstate] at h ⊢
    cases h with
    | begun hne htouches => exact ⟨_, _, rfl, hne, rfl, htouches⟩
  · rw [hstate] at h ⊢
    cases h with
    | begun hne htouches => exact ⟨_, _, rfl, hne, rfl, htouches⟩

-- The life of an object so far; what was told of it was told under an identifier that was issued.
structure Life (id : String) (c : Caller H) (past : List Event) : Prop where
  lived : Lived (c.objects.stateOf? id) past
  issued : ∀ kind n, id = Issuer.idFor kind n → past ≠ [] → n < c.objectIds.issued

theorem Life.unborn (h : Life id c past) {kind : String}
    (hid : id = Issuer.idFor kind c.objectIds.issued) :
    past = [] ∧ c.objects.stateOf? id = none := by
  have hpast : past = [] := by
    by_cases hpast : past = []
    · exact hpast
    · exact absurd (h.issued kind _ hid hpast) (Nat.lt_irrefl _)
  subst hpast
  exact ⟨rfl, h.lived.of_nil⟩

theorem Life.lived_fate (h : Life id c past) (hfate : Fate id c events d) :
    Lived (d.objects.stateOf? id) (past ++ events) := by
  cases hfate with
  | spared hstate =>
      rw [hstate, List.append_nil]
      exact h.lived
  | created kind hid _ hstate =>
      rw [(h.unborn hid).1]
      rcases hstate with hstate | hstate
      · rw [hstate]
        exact .begun (by decide) (fun _ hmem => nomatch hmem)
      · rw [hstate]
        exact .forgotten (by simp) (.begun (fun _ hmem => nomatch hmem))
  | @touched _ event htouch hlive hstate =>
      obtain ⟨state, touches, hsome, hne, rfl, htouches⟩ := h.lived.of_live hlive
      rw [hstate, hsome]
      refine .begun hne fun other hmem => ?_
      rcases List.mem_append.1 hmem with hmem | hmem
      · exact htouches other hmem
      · rw [List.mem_singleton.1 hmem]
        exact htouch
  | doomed hlive hstate =>
      obtain ⟨state, touches, -, -, rfl, htouches⟩ := h.lived.of_live hlive
      rw [hstate]
      exact .ending htouches
  | confirmed hbefore hstate =>
      have hlive : c.objects.isLive id = true := (ObjectTable.isLive_iff _ _).2 (.inl hbefore)
      obtain ⟨state, touches, -, -, rfl, htouches⟩ := h.lived.of_live hlive
      rw [hstate, List.append_nil]
      exact .begun (by decide) htouches
  | forgotten hstate =>
      rw [hstate, List.append_nil]
      by_cases hpast : past = []
      · rw [hpast]
        exact .unborn
      · exact .forgotten hpast h.lived.lifespan

theorem Life.rank_fate (h : Life id c past) (hfate : Fate id c events d) :
    (Standing.of past (c.objects.stateOf? id)).rank ≤
      (Standing.of (past ++ events) (d.objects.stateOf? id)).rank := by
  cases hfate with
  | spared hstate => rw [hstate, List.append_nil]
  | created kind hid =>
      obtain ⟨rfl, hnone⟩ := h.unborn hid
      rw [hnone]
      exact Nat.zero_le _
  | touched _ hlive hstate =>
      obtain ⟨state, touches, hsome, -⟩ := h.lived.of_live hlive
      rw [hstate, hsome, Standing.of_some]
  | doomed hlive hstate =>
      rw [hstate]
      rcases (ObjectTable.isLive_iff _ _).1 hlive with hbefore | hbefore
      · rw [hbefore]
        exact (by decide : 1 ≤ 3)
      · rw [hbefore]
        exact (by decide : 2 ≤ 3)
  | confirmed hbefore hstate =>
      rw [hbefore, hstate]
      exact (by decide : 1 ≤ 2)
  | forgotten hstate =>
      rw [hstate, List.append_nil]
      by_cases hpast : past = []
      · subst hpast
        rw [h.lived.of_nil]
      · have hforgotten : Standing.of past none = .forgotten := if_neg hpast
        rw [hforgotten]
        exact Standing.rank_le_forgotten _

theorem Life.fate (h : Life id c past) (hissued : c.objectIds.issued ≤ d.objectIds.issued)
    (hfate : Fate id c events d) : Life id d (past ++ events) := by
  refine ⟨h.lived_fate hfate, fun kind n hid hne => ?_⟩
  by_cases hpast : past = []
  · subst hpast
    cases hfate with
    | created other hother hlt =>
        rw [Issuer.idFor_injective (hid.symm.trans hother)]
        exact hlt
    | touched _ hlive =>
        obtain ⟨_, _, _, _, hnil, _⟩ := h.lived.of_live hlive
        cases hnil
    | doomed hlive =>
        obtain ⟨_, _, _, _, hnil, _⟩ := h.lived.of_live hlive
        cases hnil
    | _ => exact absurd rfl hne
  · exact Nat.lt_of_lt_of_le (h.issued kind n hid hpast) hissued

theorem Life.act (h : Life id c past) (a : Act H) :
    Life id (c.act a) (past ++ told id (c.encodes a).toList) :=
  h.fate (c.issued_act a) (c.fate_act a id)

end Lives

section Acts

variable {c : Caller H}

-- All that is encoded along acts, in order.
def encoded (c : Caller H) : List (Act H) → List Operation
  | [] => []
  | a :: acts => (c.encodes a).toList ++ (c.act a).encoded acts

theorem encoded_append (c : Caller H) (first second : List (Act H)) :
    c.encoded (first ++ second) = c.encoded first ++ (c.follow first).encoded second := by
  induction first generalizing c with
  | nil => rfl
  | cons a first ih =>
      change (c.encodes a).toList ++ (c.act a).encoded (first ++ second) = _
      rw [ih, ← List.append_assoc]
      rfl

theorem texts_act (c : Caller H) (a : Act H) : (c.act a).outbox.texts =
    c.outbox.texts ++ (c.encodes a).toList.map Operation.text := by
  cases a with
  | ask request hplain =>
      have houtbox : (c.act (.ask request hplain)).outbox = (c.respond request).after.outbox := by
        rcases c.act_ask request hplain with hact | ⟨-, hact⟩
        · rw [hact]
        · rw [hact]
          rfl
      rw [houtbox]
      exact c.texts_respond request
  | rewire transport => exact (List.append_nil _).symm
  | onset op => exact (c.texts_onset op).trans (List.append_nil _).symm
  | close op => exact (congrArg Outbox.texts (c.close_outbox op)).trans (List.append_nil _).symm

theorem texts_follow (c : Caller H) (acts : List (Act H)) :
    (c.follow acts).outbox.texts = c.outbox.texts ++ (c.encoded acts).map Operation.text := by
  induction acts generalizing c with
  | nil => exact (List.append_nil _).symm
  | cons a acts ih =>
      refine (ih (c.act a)).trans ?_
      rw [texts_act, List.append_assoc, ← List.map_append]
      rfl

def standing (c : Caller H) (id : String) (acts : List (Act H)) : Standing :=
  .of (told id (c.encoded acts)) ((c.follow acts).objects.stateOf? id)

theorem Life.follow {id : String} {past : List Event} (h : Life id c past) (acts : List (Act H)) :
    Life id (c.follow acts) (past ++ told id (c.encoded acts)) ∧
      (Standing.of past (c.objects.stateOf? id)).rank ≤ (Standing.of
        (past ++ told id (c.encoded acts)) ((c.follow acts).objects.stateOf? id)).rank := by
  induction acts generalizing c past with
  | nil =>
      change Life id c (past ++ []) ∧ (Standing.of past (c.objects.stateOf? id)).rank ≤
        (Standing.of (past ++ []) (c.objects.stateOf? id)).rank
      rw [List.append_nil]
      exact ⟨h, Nat.le_refl _⟩
  | cons a acts ih =>
      obtain ⟨hlife, hrank⟩ := ih (h.act a)
      have htold : past ++ told id (c.encoded (a :: acts)) =
          past ++ told id (c.encodes a).toList ++ told id ((c.act a).encoded acts) := by
        rw [List.append_assoc, ← told_append]
        rfl
      rw [htold]
      exact ⟨hlife, Nat.le_trans (h.rank_fate (c.fate_act a id)) hrank⟩

theorem about_encoded (c : Caller H) (acts : List (Act H)) :
    ∀ op ∈ c.encoded acts, op.event = .create → ∃ id, op.about? = some id := by
  induction acts generalizing c with
  | nil => exact fun _ h => nomatch h
  | cons a acts ih =>
      intro op hop
      rcases List.mem_append.1 hop with hop | hop
      · cases a with
        | ask request hplain =>
            exact (c.sends_respond request op (Option.mem_toList.1 hop)).about_create
        | _ => cases hop
      · exact ih (c.act a) op hop

structure Orderly (c : Caller H) (acts : List (Act H)) : Prop where
  -- What is encoded goes into the outbox, one after the other, and nothing else does.
  texts : (c.follow acts).outbox.texts = c.outbox.texts ++ (c.encoded acts).map Operation.text
  lifespan : ∀ id, Lifespan (told id (c.encoded acts))
  -- No two creations carry the same identifier.
  created : (created? (c.encoded acts)).Nodup
  -- From one moment to a later one no object goes back.
  forward : ∀ id before between after, acts = before ++ (between ++ after) →
    (c.standing id before).rank ≤ (c.standing id (before ++ between)).rank

theorem life_start (settings : CallerSettings) (transport : Transport) (id : String) :
    Life id (start settings transport : Caller H) [] :=
  ⟨.unborn, fun _ _ _ hne => (hne rfl).elim⟩

theorem orderly_start (settings : CallerSettings) (transport : Transport) (acts : List (Act H)) :
    Orderly (start settings transport) acts := by
  have hlifespan (id : String) : Lifespan (told id ((start settings transport).encoded acts)) :=
    ((life_start settings transport id).follow acts).1.lived.lifespan
  refine ⟨texts_follow _ acts, hlifespan, ?_, ?_⟩
  · apply List.nodup_iff_count.2
    intro name
    cases name with
    | some id =>
        rw [count_created?]
        exact (hlifespan id).count_create
    | none =>
        have hnone : none ∉ created? ((start settings transport).encoded acts) := by
          intro hmem
          obtain ⟨op, hop, habout⟩ := List.mem_map.1 hmem
          obtain ⟨hop, hevent⟩ := List.mem_filter.1 hop
          obtain ⟨id, hid⟩ := about_encoded _ acts op hop (of_decide_eq_true hevent)
          rw [hid] at habout
          cases habout
        rw [List.count_eq_zero.2 hnone]
        exact Nat.zero_le _
  · intro id before between after _
    have hbefore := ((life_start settings transport id).follow before).1
    have hrank := (hbefore.follow between).2
    unfold standing
    rw [follow_append, encoded_append, told_append]
    exact hrank

end Acts

section Runs

-- A runner whose handlers, whatever they do and remember, touch the caller by acts alone.
def Honest (run : Runner H N) : Prop :=
  ∀ handler occasion c, ∃ acts, (run handler occasion c).value.2 = c.follow acts

-- To have come by acts from where the caller was is kept by acts.
theorem steady_follow (c : Caller H) : Steady fun d => ∃ acts, d = c.follow acts := by
  rintro d a ⟨acts, rfl⟩
  exact ⟨acts ++ [a], (c.follow_append acts [a]).symm⟩

theorem honest_runWithin (behave : H → Occasion → Reaction H N) (depth : Nat) :
    Honest (runWithin behave depth) := fun handler occasion c =>
  runWithin_keeps (steady_follow c) behave depth handler occasion c ⟨[], rfl⟩

theorem Honest.perform {run : Runner H N} (hrun : Honest run) (request : Request H) (c : Caller H) :
    ∃ acts, (perform run request c).value.2 = c.follow acts := by
  refine perform_keeps (steady_follow c) (fun handler occasion d hd => ?_) request c ⟨[], rfl⟩
  obtain ⟨acts, rfl⟩ := hd
  obtain ⟨more, hmore⟩ := hrun handler occasion (c.follow acts)
  exact ⟨acts ++ more, hmore.trans (c.follow_append acts more).symm⟩

-- A request made of a caller, and how handlers run meanwhile.
structure Demand (H N : Type) where
  run : Runner H N
  honest : Honest run
  request : Request H

def meet (c : Caller H) (demand : Demand H N) : Caller H :=
  (perform demand.run demand.request c).value.2

-- The acts that demands come down to, one list for each demand.
def Unfolds (c : Caller H) : List (Demand H N) → List (List (Act H)) → Prop
  | [], [] => True
  | demand :: demands, acts :: chapters =>
      c.meet demand = c.follow acts ∧ Unfolds (c.meet demand) demands chapters
  | _, _ => False

theorem exists_unfolds (c : Caller H) (demands : List (Demand H N)) :
    ∃ chapters, Unfolds c demands chapters := by
  induction demands generalizing c with
  | nil => exact ⟨[], trivial⟩
  | cons demand demands ih =>
      obtain ⟨acts, hacts⟩ := demand.honest.perform demand.request c
      obtain ⟨chapters, hchapters⟩ := ih (c.meet demand)
      exact ⟨acts :: chapters, hacts, hchapters⟩

-- Whatever is demanded of a caller, whatever arrives, however its handlers react and whenever its
-- transport fails: all of it comes down to acts, along which every object lives in order. Any acts
-- will do, so it does not matter what handlers remember from one operation of a batch to the next.
theorem lives_in_order (settings : CallerSettings) (transport : Transport) :
    (∀ demands : List (Demand H N), ∃ chapters, Unfolds (start settings transport) demands chapters ∧
      Orderly (start settings transport) chapters.flatten) ∧
    (∀ acts : List (Act H), Orderly (start settings transport) acts) ∧
    ∀ (behave : H → Occasion → Reaction H N) (depth : Nat), Honest (runWithin behave depth) := by
  refine ⟨fun demands => ?_, orderly_start settings transport, honest_runWithin⟩
  obtain ⟨chapters, hunfolds⟩ := exists_unfolds (start settings transport) demands
  exact ⟨chapters, hunfolds, orderly_start settings transport _⟩

-- A creation that the host confirms only after the end was asked for.
example : told "Object_0" ((start {} {} : Caller Unit).encoded [.ask (.create {} []) trivial,
    .ask (.destroy "Object_0") trivial, .onset (Operation.created "Object_0")]) =
    [.create, .destroy] := by decide +kernel

end Runs

end Caller

end SceneLink
