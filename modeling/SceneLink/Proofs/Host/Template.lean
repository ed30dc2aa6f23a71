import SceneLink.Proofs.Host.Hierarchy
import SceneLink.Proofs.Host.Queries
import SceneLink.Proofs.Host.Reports
import SceneLink.Proofs.Scene.Received

namespace SceneLink

namespace Outbox

theorem posts_of_started {o : Outbox} (hstarted : o.started = true) (op : Operation) (ops : List Operation) :
    o.posts (op :: ops) =
      { o with pending := o.pending ++ (op :: ops).map Operation.text, scheduled := true } := by
  induction ops generalizing o op with
  | nil =>
      unfold posts posted
      rw [List.foldl_cons, if_pos hstarted]
      rfl
  | cons next ops ih =>
      have hfirst : o.posted op = { o.push op with scheduled := true } := if_pos hstarted
      have hposts : o.posts (op :: next :: ops) = (o.posted op).posts (next :: ops) := rfl
      rw [hposts, hfirst, ih (by exact hstarted)]
      unfold push
      simp

end Outbox

namespace Host

open Procedure

section Silence

variable {h k : Host} {template : Template} {object : Handle}

theorem preserves_silent (w : World) (s : Scene) : w.Preserves (fun _ => True) s.Silent where
  read {_ _ _ _ child} _ _ _ _ := by cases child <;> trivial
  member hs _ hset := hs.trans (Scene.silent_setMember hset)
  key hs _ hset := hs.trans (Scene.silent_setKey hset)
  call hs _ := hs.trans (Scene.silent_call _ _ _ _)
  field _ _ := trivial
  items _ _ := trivial
  item _ _ := trivial

def SilentSince (s : Scene) (h : Host) : Prop := s.Silent h.world.scene

theorem assign_silent (s : Scene) (object : Handle) (text : String) (raw : Json) :
    Keeps (SilentSince s) (assign object text raw) := by
  refine keeps_iff.2 fun h hh => ?_
  rw [assign_value]
  cases Path.parse text with
  | error e => exact hh
  | ok path =>
      cases Expression.ofJson raw with
      | error e => exact hh
      | ok expr =>
          exact ((preserves_silent h.world s).assign hh (holds_all (.object object))
            fun _ _ value (_ : World.valueOf _ _ _ expr = _) => holds_all value).1

theorem applyUpdate_silent (id : String) (object : Handle) (assignments : Dict String Json) (h : Host) :
    h.world.scene.Silent (applyUpdate id object assignments h).value.2.world.scene :=
  keeps_iff.1 (applyUpdate_keeps_of (assign_silent h.world.scene object) id assignments) h (.refl _)

theorem hungIn_silent (template : Template) (object : Handle) (h : Host) :
    h.world.scene.Silent (hungIn template object h).world.scene := by
  unfold hungIn
  cases nonEmpty? template.parent with
  | none => exact .refl _
  | some parent =>
      dsimp only
      rcases attach_cases object parent (template.worldPositionStays.getD true) h with
        ⟨e, he⟩ | ⟨above, scene, hattach, -, -, hadd⟩
      · rw [he]
        exact .refl _
      · rw [hattach]
        exact Scene.silent_addChild hadd

private theorem deliver_state (object : Handle) (events : List TemplateEvent) (h : Host) :
    (deliver object events h).value.2 =
      h.setScene (h.world.scene.delivered object (events.map (·.event))) := by
  rw [deliver_value]
  unfold Scene.delivered
  cases h.world.scene.deliver object (events.map (·.event)) <;> rfl

-- The object of a template is built to a plan, and only a plan of the application takes one that is there already.
theorem instantiate_build {built : Scene} (hbuilt : (h.instantiate template).value = .ok (object, built)) :
    ∃ plan : Blueprint, plan.build h.world.scene = (object, built) ∧ ∀ handle, plan = .existing handle →
      ∃ name, nonEmpty? template.prefab = some name ∧ h.catalog.prefabs.get? name = some plan := by
  unfold instantiate at hbuilt
  split at hbuilt
  · next name hname =>
    split at hbuilt
    · cases hbuilt
    · next plan hplan => exact ⟨plan, Except.ok.inj hbuilt, fun _ _ => ⟨name, hname, hplan⟩⟩
  · let name := String.ofList (Text.lastPiece '/' template.kind.toList)
    refine ⟨.entity name none [] [], Except.ok.inj hbuilt, fun handle hexisting => ?_⟩
    cases hexisting

theorem instantiate_unheard {built : Scene} (hbuilt : (h.instantiate template).value = .ok (object, built)) :
    h.world.scene.Unheard built := by
  obtain ⟨plan, hbuild, -⟩ := instantiate_build hbuilt
  have hunheard := Blueprint.unheard_build plan h.world.scene
  rwa [hbuild] at hunheard

theorem addComponent_unheard {built scene : Scene} (hadd : h.addComponent template object built = .ok scene) :
    built.Unheard scene := by
  unfold addComponent at hadd
  split at hadd
  · cases hadd
    exact (Scene.Silent.refl built).unheard
  · split at hadd
    · cases hadd
    · next plan _ =>
      exact (Blueprint.unheard_build plan built).trans
        (Scene.silent_addComponent (ok_of_mapError hadd)).unheard

theorem place_unheard (hplace : (place template h).value = (.ok object, k)) :
    h.world.scene.Unheard k.world.scene := by
  obtain ⟨built, hbuilt, hadd⟩ := place_scene hplace
  exact (instantiate_unheard hbuilt).trans (addComponent_unheard hadd)

end Silence

section Acceptance

variable {h : Host} {template : Template}

-- A template that can be carried out: its identifier is free, the plans that it names are known,
-- and its object takes the component.
structure Accepts (h : Host) (template : Template) : Prop where
  named : template.id ≠ ""
  free : h.world.registry.contains template.id = false
  prefabs : ∀ name, nonEmpty? template.prefab = some name → h.catalog.prefabs.contains name = true
  components : ∀ name, nonEmpty? template.component = some name → h.catalog.components.contains name = true
  takes : ∀ object built e, (h.instantiate template).value = .ok (object, built) →
    h.addComponent template object built ≠ .error (.access e)

theorem instantiate_ok_iff : (∃ built, (h.instantiate template).value = .ok built) ↔
    ∀ name, nonEmpty? template.prefab = some name → h.catalog.prefabs.contains name = true := by
  unfold instantiate
  cases nonEmpty? template.prefab with
  | none =>
      refine ⟨fun _ name hname => ?_, fun _ => ⟨_, rfl⟩⟩
      cases hname
  | some name =>
      simp only [Option.some.injEq, forall_eq']
      unfold Dict.contains
      cases h.catalog.prefabs.get? name with
      | none => exact ⟨by rintro ⟨_, ⟨⟩⟩, by rintro ⟨⟩⟩
      | some plan => exact ⟨fun _ => rfl, fun _ => ⟨_, rfl⟩⟩

theorem addComponent_ok_iff {object : Handle} {built : Scene} :
    (∃ scene, h.addComponent template object built = .ok scene) ↔
      (∀ name, nonEmpty? template.component = some name → h.catalog.components.contains name = true) ∧
      ∀ e, h.addComponent template object built ≠ .error (.access e) := by
  unfold addComponent
  cases nonEmpty? template.component with
  | none =>
      refine ⟨fun _ => ⟨fun name hname => ?_, fun e he => ?_⟩, fun _ => ⟨_, rfl⟩⟩
      · cases hname
      · cases he
  | some name =>
      simp only [Option.some.injEq, forall_eq']
      unfold Dict.contains
      cases h.catalog.components.get? name with
      | none => exact ⟨by rintro ⟨_, ⟨⟩⟩, by rintro ⟨⟨⟩, -⟩⟩
      | some plan =>
          dsimp only
          cases (plan.build built).2.addComponent object (plan.build built).1 with
          | error e => exact ⟨by rintro ⟨_, ⟨⟩⟩, fun hknown => absurd rfl (hknown.2 e)⟩
          | ok scene =>
              refine ⟨fun _ => ⟨rfl, fun e he => ?_⟩, fun _ => ⟨_, rfl⟩⟩
              cases he

theorem accepts_iff : h.Accepts template ↔ ∃ object placed, (place template h).value = (.ok object, placed) := by
  constructor
  · rintro ⟨hnamed, hfree, hprefabs, hcomponents, htakes⟩
    obtain ⟨⟨object, built⟩, hbuilt⟩ := instantiate_ok_iff.2 hprefabs
    obtain ⟨scene, hadd⟩ := addComponent_ok_iff.2 ⟨hcomponents, fun e => htakes object built e hbuilt⟩
    refine ⟨object, h.withObject template.id object scene, ?_⟩
    rw [place_eq, if_neg hnamed, if_neg (by simp [hfree]), hbuilt]
    dsimp only
    rw [hadd]
  · rintro ⟨object, placed, hplace⟩
    obtain ⟨built, hbuilt, hadd⟩ := place_scene hplace
    have hcomponent := addComponent_ok_iff.1 ⟨_, hadd⟩
    rcases place_value template h with ⟨e, he⟩ | ⟨_, _, -, hnamed, hfree⟩
    · rw [he] at hplace
      cases hplace
    · refine ⟨hnamed, hfree, instantiate_ok_iff.1 ⟨_, hbuilt⟩, hcomponent.1, fun other there e hthere => ?_⟩
      cases hbuilt.symm.trans hthere
      exact hcomponent.2 e

end Acceptance

section Telling

variable {h : Host}

theorem interestData_value {id : String} {entry : Registration} (event : String)
    (hentry : h.world.registry.entries.get? id = some entry) : (h.interestData id event).value =
      (entry.interests.get? event).map fun spec =>
        (h.world.query (.object entry.handle) spec.query).value := by
  unfold interestData
  rw [hentry]
  dsimp only
  cases entry.interests.get? event <;> rfl

def announcement (h : Host) (template : Template) (object : Handle) : Operation :=
  { Operation.created template.id with
    data := (template.interests.get? Event.created.name).map fun spec =>
      .record (h.world.query (.object object) spec.query).value }

theorem sendCreated_told {k : Host} (hk : k.Ready) {template : Template} {object : Handle}
    (hentry : k.world.registry.entries.get? template.id = some { handle := object, interests := template.interests }) :
    (sendCreated template.id k).value = (.ok (), k.posted (k.announcement template object)) := by
  unfold sendCreated announcement
  rw [bind_value, get_value]
  dsimp only
  rw [bind_value, log_value, interestData_value _ hentry]
  dsimp only
  rw [send_ready hk, Option.map_map]
  rfl

theorem report_told {k : Host} (hk : k.Ready) (id : String) (reported : Dict String Json) :
    (report id reported k).value = (.ok (), k.posts (reports id reported)) := by
  unfold report reports
  split
  · rfl
  · exact send_ready hk _

-- Once an object is configured, one event tells of it, and another one of its assignments, if need be.
theorem configure_told (hh : h.Ready) {template : Template} {object : Handle}
    (hentry : ∃ interests, h.world.registry.entries.get? template.id = some { handle := object, interests }) :
    let k := h.settled template object
    let reported := (attempts object h.world template.update).filterMap (·.report? object)
    (configure template object h).value =
      (.ok (), k.posts (k.announcement template object :: reports template.id reported)) := by
  intro k reported
  obtain ⟨interests, hentry⟩ := hentry
  obtain ⟨scene, hk⟩ := h.settled_still template object
  have hregistered : k.world.registry.entries.get? template.id =
      some { handle := object, interests := template.interests } := by
    have hregistry : k.world.registry = h.world.registry.mapInterests template.id fun _ => template.interests :=
      congrArg (fun k : Host => k.world.registry) hk
    rw [hregistry, get?_mapInterests, if_pos rfl, hentry]
    rfl
  have hready : k.Ready := ready_of_still (by exact hh) ⟨scene, hk⟩
  rw [configure_settled, bind_value, sendCreated_told hready hregistered]
  exact report_told (posted_ready hready _) _ _

end Telling

section Carrying

variable {h k placed : Host} {template : Template} {object : Handle}

-- The host when a new object has got its first events and hangs in its place.
def hung (placed : Host) (template : Template) (object : Handle) : Host :=
  hungIn template object (deliver object template.preEvents placed).value.2

private theorem hung_still (placed : Host) (template : Template) (object : Handle) :
    Still placed (placed.hung template object) :=
  (deliver_still object template.preEvents placed).trans (hungIn_still template object _)

-- All of a template is carried out, whatever becomes of each of its parts.
structure Carries (h : Host) (template : Template) (object : Handle) (placed k : Host) : Prop where
  place : (place template h).value = (.ok object, placed)
  registry : ∀ id, k.world.registry.entries.get? id =
    if id = template.id then some { handle := object, interests := template.interests }
    else h.world.registry.entries.get? id
  world : k.world = ((placed.hung template object).settled template object).world
  received : k.world.scene.received? object = (placed.world.scene.received? object).map fun _ =>
    (h.world.scene.received? object).getD [] ++
      if h.world.scene.canWrite object then (template.preEvents ++ template.postEvents).map (·.event) else []
  outbox : k.outbox = { h.outbox with
    pending := h.outbox.pending ++ (k.announcement template object :: reports template.id
      ((attempts object (placed.hung template object).world template.update).filterMap
        (·.report? object))).map Operation.text
    scheduled := true }
  rest : k = { h with
    world := { h.world with scene := k.world.scene, registry := k.world.registry }, outbox := k.outbox }

-- The events of a template are all that its object receives, and they add to those that it had received before.
theorem received_settled (hplace : (place template h).value = (.ok object, placed)) :
    ((placed.hung template object).settled template object).world.scene.received? object =
      (placed.world.scene.received? object).map fun _ => (h.world.scene.received? object).getD [] ++
        if h.world.scene.canWrite object then (template.preEvents ++ template.postEvents).map (·.event)
        else [] := by
  have hunheard := place_unheard hplace
  have hwrite := Scene.canWrite_of_uses hunheard.uses object
  have hsilent := (hungIn_silent template object (deliver object template.preEvents placed).value.2).trans
    (applyUpdate_silent template.id object template.update _)
  rw [deliver_state] at hsilent
  have hscene : ((placed.hung template object).settled template object).world.scene =
      (applyUpdate template.id object template.update
        (placed.hung template object)).value.2.world.scene.delivered object
          (template.postEvents.map (·.event)) := by
    unfold settled
    rw [deliver_state]
    rfl
  unfold hung at hscene ⊢
  rw [deliver_state] at hscene ⊢
  rw [hscene, Scene.received?_delivered_twice hsilent, hwrite, List.map_append]
  cases hevents : placed.world.scene.received? object with
  | none => rfl
  | some events =>
      rw [← hunheard.eq_getD hevents]
      rfl

theorem placed_eq (hplace : (place template h).value = (.ok object, placed)) :
    ∃ scene, placed = h.withObject template.id object scene := by
  rcases place_value template h with ⟨e, he⟩ | ⟨other, scene, hvalue, -⟩
  · rw [he] at hplace
    cases hplace
  · rw [hvalue] at hplace
    cases hplace
    exact ⟨scene, rfl⟩

theorem entries_placed (hplace : (place template h).value = (.ok object, placed)) (id : String) :
    placed.world.registry.entries.get? id =
      if id = template.id then some { handle := object } else h.world.registry.entries.get? id := by
  obtain ⟨scene, rfl⟩ := placed_eq hplace
  exact Dict.get?_insert _ _ _ _

-- What is neither in the scene nor in the registry stays as it was.
theorem settled_placed (hplace : (place template h).value = (.ok object, placed)) :
    ∃ scene, (placed.hung template object).settled template object =
      { h with world := { h.world with
        scene := scene
        registry := placed.world.registry.mapInterests template.id fun _ => template.interests } } := by
  obtain ⟨built, rfl⟩ := placed_eq hplace
  obtain ⟨moved, hmoved⟩ := (h.withObject template.id object built).hung_still template object
  obtain ⟨scene, hscene⟩ := settled_still (hung (h.withObject template.id object built) template object)
    template object
  refine ⟨scene, ?_⟩
  rw [hscene, hmoved]
  rfl

theorem create_carries (hh : h.Ready) (hplace : (place template h).value = (.ok object, placed)) :
    ∃ k, (create template h).value = (.ok (), k) ∧ h.Carries template object placed k := by
  have hreceived := received_settled hplace
  have hcreate : _ = (configure template object (placed.hung template object)).value := create_placed hplace
  have hstill := placed.hung_still template object
  obtain ⟨scene, hsettled⟩ := settled_placed hplace
  have hready : (placed.hung template object).Ready := by
    obtain ⟨built, rfl⟩ := placed_eq hplace
    exact ready_of_still (by exact hh) hstill
  have hentry : (placed.hung template object).world.registry.entries.get? template.id =
      some { handle := object } := by
    obtain ⟨moved, hmoved⟩ := hstill
    rw [hmoved]
    exact (entries_placed hplace template.id).trans (if_pos rfl)
  rw [configure_told hready ⟨_, hentry⟩] at hcreate
  refine ⟨_, hcreate, hplace, fun id => ?_, rfl, hreceived, ?_, ?_⟩
  · change ((placed.hung template object).settled template object).world.registry.entries.get? id = _
    rw [hsettled, get?_mapInterests, entries_placed hplace, entries_placed hplace, if_pos rfl]
    by_cases hid : id = template.id
    · rw [if_pos hid, if_pos hid]
      rfl
    · rw [if_neg hid, if_neg hid, if_neg hid]
  · change ((placed.hung template object).settled template object).outbox.posts _ = _
    have houtbox : ((placed.hung template object).settled template object).outbox = h.outbox := by
      rw [hsettled]
    rw [houtbox, Outbox.posts_of_started hh]
    rfl
  · rw [hsettled]
    rfl

-- The object of a template is a new one, not one that its plan takes from those that are there.
def MakesAnew (h : Host) (template : Template) : Prop :=
  ∀ name handle, nonEmpty? template.prefab = some name →
    h.catalog.prefabs.get? name ≠ some (.existing handle)

theorem place_new (hanew : h.MakesAnew template) (hplace : (place template h).value = (.ok object, placed)) :
    h.world.scene.objects.length ≤ object := by
  obtain ⟨built, hbuilt, -⟩ := place_scene hplace
  obtain ⟨plan, hbuild, hexisting⟩ := instantiate_build hbuilt
  have hmakes (handle : Handle) : plan ≠ .existing handle := by
    intro heq
    obtain ⟨name, hname, hplan⟩ := hexisting handle heq
    exact hanew name handle hname (heq ▸ hplan)
  have hle := Blueprint.le_build plan hmakes h.world.scene
  rwa [hbuild] at hle

-- A new object is used by nobody, so it receives the events of its template and no others.
theorem Carries.received_new (hk : h.Carries template object placed k) (hanew : h.MakesAnew template)
    (huses : ∀ use ∈ h.world.scene.uses, use.1 < h.world.scene.objects.length) {events : List String}
    (hevents : k.world.scene.received? object = some events) :
    events = (template.preEvents ++ template.postEvents).map (·.event) := by
  have hbeyond := place_new hanew hk.place
  have hreceived := hk.received
  rw [hevents, Scene.canWrite_of_beyond huses hbeyond, if_pos rfl, Scene.received?_eq_none hbeyond] at hreceived
  obtain ⟨before, -, heq⟩ := Option.map_eq_some_iff.1 hreceived.symm
  exact heq.symm

theorem apply_template {op : Operation} (hevent : op.event = .create)
    (htemplate : op.payload Template.ofJson? = .ok template) : (apply op h).value = (create template h).value := by
  unfold apply
  rw [hevent]
  dsimp only
  rw [bind_value, payload_value, htemplate]
  rfl

-- A template is carried out as a whole or not at all. The one thing that depends on the host is what its object
-- has received in the end: an object that was there before has received events before, and it receives nothing
-- while someone uses it.
theorem create_whole (hh : h.Ready) {op : Operation} (hevent : op.event = .create)
    (htemplate : op.payload Template.ofJson? = .ok template) :
    (h.Accepts template → ∃ object placed k, (apply op h).value = (.ok (), k) ∧
      h.Carries template object placed k ∧
      (h.MakesAnew template → (∀ use ∈ h.world.scene.uses, use.1 < h.world.scene.objects.length) →
        ∀ events, k.world.scene.received? object = some events →
          events = (template.preEvents ++ template.postEvents).map (·.event))) ∧
    (¬h.Accepts template → ∃ e, (apply op h).value = (.error e, h)) := by
  rw [apply_template hevent htemplate]
  refine ⟨fun haccepts => ?_, fun hrefuses => ?_⟩
  · obtain ⟨object, placed, hplace⟩ := accepts_iff.1 haccepts
    obtain ⟨k, hcreate, hcarries⟩ := create_carries hh hplace
    exact ⟨object, placed, k, hcreate, hcarries, fun hanew huses _ => hcarries.received_new hanew huses⟩
  · rcases place_cases template h with ⟨e, he⟩ | ⟨object, placed, hplace, -⟩
    · exact ⟨e, create_refused he⟩
    · exact absurd (accepts_iff.2 ⟨object, placed, hplace⟩) hrefuses

end Carrying

-- A plan that makes an object, and one that hands out an object of the application.
section Sharing

def sharing : Catalog := { prefabs := [("Lamp", .entity "Lamp" none [] []), ("Door", .existing 0)] }

def porter (uses : List (Handle × Usage)) : Host :=
  { (Host.start {} sharing {}).value with
    world := { scene := { objects := [.entity { name := "Door" }], uses := uses } }, catalog := sharing }

theorem porter_reachable (uses : List (Handle × Usage)) : (porter uses).Reachable := .furnish (.start _ _ _) _ _

def knock (id : String) : Template where
  id
  prefab := some "Door"
  preEvents := [{ event := "Knock" }]

def lantern : Template where
  id := "L"
  prefab := some "Lamp"
  preEvents := [{ event := "Light" }]
  parent := some "object:Nobody"
  update := [("tag", .str "lit"), ("tag//", .str "lit")]
  interests := [("Created", { query := [("tag", ⟨"tag", [.ofMember "tag"]⟩)] })]
  postEvents := [{ event := "Shine" }]

theorem lamp_accepted : (porter []).Accepts lantern where
  named := by decide
  free := rfl
  prefabs name hname := by
    cases hname
    rfl
  components _ hname := nomatch hname
  takes _ _ _ _ := nofun

theorem lamp_anew : (porter []).MakesAnew lantern := by
  intro name handle hname hplan
  cases hname
  cases hplan

theorem create_whole_lantern : (porter []).Ready ∧
    (Operation.create lantern).payload Template.ofJson? = .ok lantern ∧ (porter []).Accepts lantern ∧
    (porter []).MakesAnew lantern ∧
    ∃ object placed k, (apply (Operation.create lantern) (porter [])).value = (.ok (), k) ∧
      (porter []).Carries lantern object placed k ∧
      ∀ events, k.world.scene.received? object = some events → events = ["Light", "Shine"] := by
  have hready := (porter_reachable []).ready
  have htemplate : (Operation.create lantern).payload Template.ofJson? = .ok lantern := rfl
  obtain ⟨object, placed, k, hvalue, hcarries, hreceived⟩ := (create_whole hready rfl htemplate).1 lamp_accepted
  exact ⟨hready, htemplate, lamp_accepted, lamp_anew, object, placed, k, hvalue, hcarries,
    hreceived lamp_anew nofun⟩

-- An accepted template whose object receives other events than those of the template.
def Diverts (h : Host) (template : Template) : Prop :=
  (Operation.create template).payload Template.ofJson? = .ok template ∧ h.Accepts template ∧
    ∃ k object events, (apply (Operation.create template) h).value = (.ok (), k) ∧
      k.world.registry.get? template.id = some object ∧ k.world.scene.received? object = some events ∧
      events ≠ (template.preEvents ++ template.postEvents).map (·.event)

-- The second time that an object is handed out, it has received events before; and as long as it is used it
-- receives none.
theorem shared_object_diverts :
    (∃ h : Host, h.Reachable ∧ h.world.scene.uses = [] ∧ ∃ template, h.Diverts template) ∧
      ∃ h : Host, h.Reachable ∧ h.world.scene.uses = [(0, Usage.writing)] ∧ ∃ template, h.Diverts template := by
  have hknock {h : Host} {id : String} (events : List String) (hh : h.Reachable) (hcatalog : h.catalog = sharing)
      (hid : id ≠ "") (hfree : h.world.registry.contains id = false)
      (htemplate : (Operation.create (knock id)).payload Template.ofJson? = .ok (knock id))
      (hobject : (apply (Operation.create (knock id)) h).value.2.world.registry.get? id = some 0)
      (hevents : (apply (Operation.create (knock id)) h).value.2.world.scene.received? 0 = some events)
      (hne : events ≠ ["Knock"]) : h.Diverts (knock id) := by
    have haccepts : h.Accepts (knock id) := by
      refine ⟨hid, hfree, fun name hname => ?_, (fun _ hname => nomatch hname), fun _ _ _ _ => nofun⟩
      cases hname
      rw [hcatalog]
      rfl
    obtain ⟨object, placed, hplace⟩ := accepts_iff.1 haccepts
    obtain ⟨k, hvalue, -⟩ := create_carries hh.ready hplace
    have happly := (apply_template rfl htemplate).trans hvalue
    rw [happly] at hobject hevents
    exact ⟨htemplate, haccepts, k, 0, events, happly, hobject, hevents, hne⟩
  constructor
  · let once := (porter []).perform (.apply (Operation.create (knock "A")))
    have honce : once.Reachable := .perform (porter_reachable []) _
    exact ⟨once, honce, by decide +kernel, knock "B", hknock ["Knock", "Knock"] honce (by rfl) (by decide)
      (by decide +kernel) rfl (by decide +kernel) (by decide +kernel) (by decide)⟩
  · have hporter := porter_reachable [(0, .writing)]
    exact ⟨_, hporter, rfl, knock "A", hknock [] hporter rfl (by decide) rfl rfl (by decide +kernel)
      (by decide +kernel) (by decide)⟩

end Sharing

end Host

end SceneLink
