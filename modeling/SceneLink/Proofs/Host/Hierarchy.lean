import SceneLink.Proofs.Host.Creation
import SceneLink.Proofs.Host.Lifecycle
import SceneLink.Proofs.Host.Steady
import SceneLink.Proofs.Scene.Hierarchy
import SceneLink.Proofs.World.Preservation

namespace SceneLink

-- Every plan makes all of its objects anew.
structure Catalog.Fresh (c : Catalog) : Prop where
  prefabs : ∀ name plan, c.prefabs.get? name = some plan → plan.Fresh
  components : ∀ name plan, c.components.get? name = some plan → plan.Fresh

namespace Host

open Procedure Relation

def hierarchy (h : Host) : Hierarchy := h.world.scene.hierarchy

section Shaped

variable {t : Hierarchy} {c : Catalog} {α : Type}

def Shaped (t : Hierarchy) (c : Catalog) (h : Host) : Prop := h.hierarchy = t ∧ h.catalog = c

theorem preserves_hierarchy (w : World) (t : Hierarchy) :
    w.Preserves (fun _ => True) fun s => s.hierarchy = t where
  read {_ _ _ _ child} _ _ _ _ := by cases child <;> trivial
  member hs _ hset := (Scene.hierarchy_setMember hset).trans hs
  key hs _ hset := (Scene.hierarchy_setKey hset).trans hs
  call hs _ := (Scene.hierarchy_call _ _ _ _).trans hs
  field _ _ := trivial
  items _ _ := trivial
  item _ _ := trivial

theorem holds_all (node : Node) : node.Holds fun _ => True := by
  cases node <;> trivial

theorem hierarchy_written {animator : Animator} {w u : World} (h : animator.Written w u) :
    u.scene.hierarchy = w.scene.hierarchy := by
  induction h with
  | nothing => rfl
  | @write u t handle value _ _ _ ih =>
      rw [← ih]
      exact (preserves_hierarchy u _).set rfl (holds_all _) (holds_all _) _

theorem shaped_steady (t : Hierarchy) (c : Catalog) : Steady (Shaped t c) where
  sending _ _ hh := hh
  flushing _ hh := hh
  collecting _ hh := hh
  globals _ _ hh := hh
  animator _ _ hh := hh
  registry _ _ hh := hh
  delivery _ _ _ _ hscene hh := ⟨(Scene.hierarchy_deliver hscene).trans hh.1, hh.2⟩
  assignment h object _ expr hh :=
    have hkept := (preserves_hierarchy h.world t).assign hh.1 (holds_all (.object object))
      fun _ _ value (_ : World.valueOf _ _ _ expr = _) => holds_all value
    ⟨hkept.1, hh.2⟩
  frame h dt hh := ⟨(hierarchy_written (Animator.advance_spec h.animator h.world dt).world).trans hh.1, hh.2⟩

end Shaped

section Creation

variable {h k : Host} {template : Template} {object : Handle}

theorem entity_fresh (name : String) : (Blueprint.entity name none [] []).Fresh := by
  constructor <;> trivial

theorem builds_instantiate (hfresh : h.catalog.Fresh) {scene : Scene}
    (hbuilt : (h.instantiate template).value = .ok (object, scene)) :
    Blueprint.Builds h.world.scene [object] scene := by
  unfold instantiate at hbuilt
  split at hbuilt
  · next name _ =>
    split at hbuilt
    · cases hbuilt
    · next plan hplan =>
      have hbuild : plan.build h.world.scene = (object, scene) := Except.ok.inj hbuilt
      have hbuilds := Blueprint.builds_build plan h.world.scene (hfresh.prefabs name plan hplan)
      rwa [hbuild] at hbuilds
  · let name := String.ofList (Text.lastPiece '/' template.kind.toList)
    have hbuild : (Blueprint.entity name none [] []).build h.world.scene = (object, scene) :=
      Except.ok.inj hbuilt
    have hbuilds := Blueprint.builds_build _ h.world.scene (entity_fresh name)
    rwa [hbuild] at hbuilds

theorem builds_addComponent (hfresh : h.catalog.Fresh) {scene next : Scene}
    (hadd : h.addComponent template object scene = .ok next) : Blueprint.Builds scene [] next := by
  unfold addComponent at hadd
  split at hadd
  · cases hadd
    exact Blueprint.builds_nil scene
  · next name _ =>
    split at hadd
    · cases hadd
    · next plan hplan =>
      obtain ⟨more, hmore, hgrown, -⟩ := Blueprint.builds_build plan scene (hfresh.components name plan hplan)
      have hsame : next.hierarchy = (plan.build scene).2.hierarchy :=
        Scene.hierarchy_addComponent (ok_of_mapError hadd)
      exact ⟨more, hsame.trans hmore, hgrown, fun _ hh => nomatch hh⟩

-- A new object comes with others that hang below it, all of them apart from those that were there.
theorem place_grows (hfresh : h.catalog.Fresh) (hplace : (place template h).value = (.ok object, k)) :
    k.catalog = h.catalog ∧ Blueprint.Builds h.world.scene [object] k.world.scene := by
  obtain ⟨built, hbuilt, hadd⟩ := place_scene hplace
  refine ⟨?_, (builds_instantiate hfresh hbuilt).append (builds_addComponent hfresh hadd)⟩
  rcases place_value template h with ⟨e, he⟩ | ⟨handle, scene, hvalue, -⟩
  · rw [he] at hplace
    cases hplace
  · rw [hvalue] at hplace
    cases hplace
    rfl

-- What there is when a new object is about to be hung: the object, and the host with the events of
-- the template delivered to it.
def Offers (h : Host) (template : Template) (object : Handle) (k : Host) : Prop :=
  ∃ placed, (place template h).value = (.ok object, placed) ∧
    k = (deliver object template.preEvents placed).value.2

theorem Offers.grows (hfresh : h.catalog.Fresh) (hoffers : h.Offers template object k) :
    k.catalog = h.catalog ∧ ∃ more, k.hierarchy = h.hierarchy ++ more ∧ h.hierarchy.Grown more ∧
      object < k.hierarchy.length := by
  obtain ⟨placed, hplace, rfl⟩ := hoffers
  obtain ⟨hcatalog, more, hmore, hgrown, hbounds⟩ := place_grows hfresh hplace
  obtain ⟨hsame, hplans⟩ := keeps_iff.1
    ((shaped_steady _ _).deliver_keeps object template.preEvents) placed ⟨rfl, rfl⟩
  refine ⟨hplans.trans hcatalog, more, hsame.trans hmore, hgrown, ?_⟩
  rw [hsame]
  exact (hbounds object (List.mem_singleton_self object)).2

-- What becomes of the hierarchy if one thing happens, which may be that an object hangs below itself.
structure Follows (h k : Host) (loops : Prop) : Prop where
  catalog : k.catalog = h.catalog
  sound : h.hierarchy.Sound → k.hierarchy.Sound
  acyclic : h.hierarchy.Sound → (k.hierarchy.Acyclic ↔ h.hierarchy.Acyclic ∧ ¬loops)

theorem Shaped.follows {loops : Prop} (hk : k.Shaped h.hierarchy h.catalog) (hnot : ¬loops) :
    Follows h k loops where
  catalog := hk.2
  sound hsound := hk.1 ▸ hsound
  acyclic _ := by rw [hk.1, and_iff_left hnot]

-- The guard of an attachment excludes the object itself, so what is left is what hangs below it.
theorem attach_follows (hobject : object < k.hierarchy.length) (parent : String) (stays : Bool) :
    Follows k (attach object parent stays k).value.2 (∃ above, parentOf k.world object parent = .ok above ∧
      TransGen k.hierarchy.Parent object above ∧ (attach object parent stays k).value.1 = .ok ()) := by
  rcases attach_cases object parent stays k with ⟨e, he⟩ | ⟨above, scene, hattach, habove, hne, hadd⟩
  · rw [he]
    exact Shaped.follows ⟨rfl, rfl⟩ fun ⟨_, _, _, hok⟩ => nomatch hok
  · obtain ⟨hlt, hhung⟩ := Scene.hierarchy_addChild hadd
    rw [hattach]
    refine ⟨rfl, fun hsound => ?_, fun _ => ?_⟩
    · change scene.hierarchy.Sound
      rw [hhung]
      exact hsound.hang hlt hobject hne
    · change scene.hierarchy.Acyclic ↔ _
      rw [hhung, Hierarchy.acyclic_hang hlt]
      refine and_congr_right fun _ => not_congr ⟨fun hbelow => ?_, ?_⟩
      · exact ⟨above, habove, (reflTransGen_iff_eq_or_transGen.1 hbelow).resolve_left hne, rfl⟩
      · rintro ⟨other, hother, hbelow, -⟩
        cases habove.symm.trans hother
        exact hbelow.to_reflTransGen

theorem Follows.trans {l : Host} {loops more : Prop} (hk : Follows h k loops) (hl : Follows k l more) :
    Follows h l (loops ∨ more) where
  catalog := hl.catalog.trans hk.catalog
  sound hsound := hl.sound (hk.sound hsound)
  acyclic hsound := by
    rw [hl.acyclic (hk.sound hsound), hk.acyclic hsound, not_or, and_assoc]

theorem Follows.congr {loops more : Prop} (hk : Follows h k loops) (hiff : loops ↔ more) :
    Follows h k more := by
  rwa [propext hiff] at hk

theorem Offers.follows (hfresh : h.catalog.Fresh) (hoffers : h.Offers template object k) :
    Follows h k False := by
  obtain ⟨hcatalog, more, hmore, hgrown, -⟩ := hoffers.grows hfresh
  refine ⟨hcatalog, fun hsound => hmore ▸ hsound.append hgrown, fun hsound => ?_⟩
  rw [hmore, Hierarchy.acyclic_append hsound.closed hgrown, not_false_eq_true, and_true]

theorem Offers.unique {other : Handle} {l : Host} (hoffers : h.Offers template object k)
    (hother : h.Offers template other l) : other = object ∧ l = k := by
  obtain ⟨placed, hplace, rfl⟩ := hoffers
  obtain ⟨others, hothers, rfl⟩ := hother
  rw [hplace] at hothers
  cases hothers
  exact ⟨rfl, rfl⟩

-- An object that is hung below one that hangs below it.
def Loops (k : Host) (template : Template) (object : Handle) : Prop :=
  ∃ parent above, nonEmpty? template.parent = some parent ∧ parentOf k.world object parent = .ok above ∧
    TransGen k.hierarchy.Parent object above ∧
    (attach object parent (template.worldPositionStays.getD true) k).value.1 = .ok ()

theorem create_follows (hfresh : h.catalog.Fresh) (template : Template) :
    Follows h (create template h).value.2 (∃ object k, h.Offers template object k ∧
      k.Loops template object) := by
  rcases place_value template h with ⟨e, he⟩ | ⟨object, scene, hplace, -⟩
  · rw [create_refused he]
    refine Shaped.follows ⟨rfl, rfl⟩ ?_
    rintro ⟨object, k, ⟨placed, hplace, -⟩, -⟩
    rw [he] at hplace
    cases hplace
  · have hoffers : h.Offers template object _ := ⟨_, hplace, rfl⟩
    rw [create_placed hplace]
    generalize (deliver object template.preEvents _).value.2 = k at hoffers ⊢
    obtain ⟨-, -, -, -, hobject⟩ := hoffers.grows hfresh
    have hhung : Follows k (hungIn template object k) (k.Loops template object) := by
      unfold hungIn Loops
      cases nonEmpty? template.parent with
      | none => exact Shaped.follows ⟨rfl, rfl⟩ fun ⟨_, _, hnone, _⟩ => nomatch hnone
      | some parent =>
          refine (attach_follows hobject parent _).congr ⟨fun ⟨above, h⟩ => ⟨parent, above, rfl, h⟩, ?_⟩
          rintro ⟨_, above, hparent, h⟩
          cases hparent
          exact ⟨above, h⟩
    have hconfigured : Follows (hungIn template object k)
        (configure template object (hungIn template object k)).value.2 False :=
      Shaped.follows (keeps_iff.1 ((shaped_steady _ _).configure_keeps template object) _ ⟨rfl, rfl⟩) id
    refine (((hoffers.follows hfresh).trans hhung).trans hconfigured).congr ?_
    rw [false_or, or_false]
    refine ⟨fun hloops => ⟨object, k, hoffers, hloops⟩, ?_⟩
    rintro ⟨other, l, hother, hloops⟩
    obtain ⟨rfl, rfl⟩ := hoffers.unique hother
    exact hloops

end Creation

section Runs

variable {h : Host}

def HangsBelowItself (h : Host) (op : Operation) : Prop :=
  op.event = .create ∧ ∃ template object k, op.payload Template.ofJson? = .ok template ∧
    h.Offers template object k ∧ k.Loops template object

theorem apply_follows (hfresh : h.catalog.Fresh) (op : Operation) :
    Follows h (apply op h).value.2 (h.HangsBelowItself op) := by
  by_cases hevent : op.event = .create
  · have hvalue : (apply op h).value =
        ((payload op Template.ofJson? >>= create : Action Unit) h).value := by
      unfold apply
      rw [hevent]
    unfold HangsBelowItself
    rw [hvalue, Procedure.bind_value, payload_value]
    cases op.payload Template.ofJson? with
    | error e => exact Shaped.follows ⟨rfl, rfl⟩ fun ⟨_, _, _, _, hnone, _⟩ => nomatch hnone
    | ok template =>
        refine (create_follows hfresh template).congr ⟨fun ⟨object, k, hk⟩ => ?_, ?_⟩
        · exact ⟨hevent, template, object, k, rfl, hk⟩
        · rintro ⟨-, _, object, k, htemplate, hk⟩
          cases htemplate
          exact ⟨object, k, hk⟩
  · have hkept := (shaped_steady h.hierarchy h.catalog).apply_keeps fun hcreate => absurd hcreate hevent
    exact Shaped.follows (keeps_iff.1 hkept h ⟨rfl, rfl⟩) fun hcreate => hevent hcreate.1

theorem perform_follows (hfresh : h.catalog.Fresh) {deed : Deed}
    (hdeed : ∀ scene resources catalog, deed ≠ .arrange scene resources catalog) :
    Follows h (h.perform deed) (∃ op, deed = .apply op ∧ h.HangsBelowItself op) := by
  by_cases happly : ∃ op, deed = .apply op
  · obtain ⟨op, rfl⟩ := happly
    rw [perform_apply]
    refine (apply_follows hfresh op).congr ⟨fun hloops => ⟨op, rfl, hloops⟩, ?_⟩
    rintro ⟨other, heq, hloops⟩
    cases heq
    exact hloops
  · have hkept := (shaped_steady h.hierarchy h.catalog).perform_keeps
      (fun op heq => absurd ⟨op, heq⟩ happly)
      (fun _ scene resources catalog heq => absurd heq (hdeed scene resources catalog)) ⟨rfl, rfl⟩
    exact Shaped.follows hkept fun ⟨op, heq, _⟩ => happly ⟨op, heq⟩

-- One of these deeds creates an object and hangs it below one that hangs below it.
def Entangles (h : Host) (deeds : List Deed) : Prop :=
  ∃ before op rest, deeds = before ++ .apply op :: rest ∧ (h.after before).HangsBelowItself op

theorem entangles_cons (h : Host) (deed : Deed) (deeds : List Deed) : h.Entangles (deed :: deeds) ↔
    (∃ op, deed = .apply op ∧ h.HangsBelowItself op) ∨ (h.perform deed).Entangles deeds := by
  constructor
  · rintro ⟨before, op, rest, heq, hloops⟩
    cases before with
    | nil =>
        cases heq
        exact .inl ⟨op, rfl, hloops⟩
    | cons first before =>
        cases heq
        exact .inr ⟨before, op, rest, rfl, hloops⟩
  · rintro (⟨op, rfl, hloops⟩ | ⟨before, op, rest, rfl, hloops⟩)
    · exact ⟨[], op, deeds, rfl, hloops⟩
    · exact ⟨deed :: before, op, rest, rfl, hloops⟩

theorem after_follows (hfresh : h.catalog.Fresh) {deeds : List Deed}
    (hdeeds : ∀ scene resources catalog, .arrange scene resources catalog ∉ deeds) :
    Follows h (h.after deeds) (h.Entangles deeds) := by
  induction deeds generalizing h with
  | nil =>
      refine Shaped.follows ⟨rfl, rfl⟩ ?_
      rintro ⟨before, op, rest, heq, -⟩
      exact absurd heq (List.append_ne_nil_of_right_ne_nil before (List.cons_ne_nil _ rest)).symm
  | cons deed deeds ih =>
      have hfirst := perform_follows hfresh fun scene resources catalog heq =>
        hdeeds scene resources catalog (heq ▸ List.mem_cons_self)
      have hrest := ih (hfirst.catalog ▸ hfresh) fun scene resources catalog hmem =>
        hdeeds scene resources catalog (List.mem_cons_of_mem deed hmem)
      exact (hfirst.trans hrest).congr (h.entangles_cons deed deeds).symm

-- An inbound batch arranges nothing.
theorem arrange_mem {scene : Scene} {resources : Dict String Node} {catalog : Catalog} {turns : List Turn}
    (hmem : .arrange scene resources catalog ∈ turns.flatMap Turn.deeds) :
    .act (.arrange scene resources catalog) trivial ∈ turns := by
  obtain ⟨turn, hturn, hmem⟩ := List.mem_flatMap.1 hmem
  cases turn with
  | act deed own =>
      obtain rfl := List.mem_singleton.1 hmem
      exact hturn
  | receive raw =>
      rcases Session.deedsOf_mem hmem with ⟨-, -, op, -, heq⟩ | heq
      · cases heq
      · cases heq

-- Whatever arrives, no object becomes its own child; but the hierarchy stays acyclic exactly as long as no
-- parent path leads to an object that hangs below the new one.
theorem acyclic_iff (hfresh : h.catalog.Fresh) (hclosed : h.hierarchy.Closed)
    (hacyclic : h.hierarchy.Acyclic) {turns : List Turn}
    (hturns : ∀ scene resources catalog, .act (.arrange scene resources catalog) trivial ∉ turns) :
    let k := turns.foldl play h
    k.hierarchy.Sound ∧ (k.hierarchy.Acyclic ↔ ¬h.Entangles (turns.flatMap Turn.deeds)) := by
  intro k
  have hsound : h.hierarchy.Sound := ⟨hclosed, fun object hself => hacyclic object (.single hself)⟩
  have hfollows := after_follows hfresh fun scene resources catalog hmem =>
    hturns scene resources catalog (arrange_mem hmem)
  rw [← plays_eq] at hfollows
  exact ⟨hfollows.sound hsound, by rw [hfollows.acyclic hsound, and_iff_right hacyclic]⟩

end Runs

-- A tree of two objects, hung below another one and below its own branch.
section Grafting

def grove : Catalog := { prefabs := [("P", .entity "P" none [] [.entity "Arm" none [] []])] }

def grovekeeper : Host := (Host.start {} grove {}).value

def graft (id parent : String) : Operation := Operation.create { id, prefab := some "P", parent := some parent }

def grafting (ops : List Operation) : List Turn := [.receive (Batch.encode ops)]

theorem grove_fresh : grove.Fresh := by
  refine ⟨fun name plan hplan => ?_, fun _ _ hnone => nomatch hnone⟩
  obtain rfl : plan = .entity "P" none [] [.entity "Arm" none [] []] :=
    congrArg Prod.snd (List.mem_singleton.1 (Dict.mem_of_get? hplan))
  exact ⟨trivial, entity_fresh "Arm", trivial⟩

theorem grovekeeper_childless (parent child : Handle) : ¬grovekeeper.hierarchy.Parent parent child :=
  fun hedge => nomatch hedge

theorem grovekeeper_acyclic : grovekeeper.hierarchy.Acyclic := by
  intro object hcycle
  obtain ⟨_, -, hedge⟩ := TransGen.tail'_iff.1 hcycle
  exact grovekeeper_childless _ _ hedge

theorem acyclic_iff_grove :
    let turns := grafting [graft "A" "", graft "B" "object:A/transform:Arm"]
    let k := turns.foldl play grovekeeper
    grove.Fresh ∧ grovekeeper.hierarchy.Acyclic ∧ k.hierarchy = [[3], [0], [], [2]] ∧ k.hierarchy.Sound ∧
      (k.hierarchy.Acyclic ↔ ¬grovekeeper.Entangles (turns.flatMap Turn.deeds)) :=
  ⟨grove_fresh, grovekeeper_acyclic, by decide +kernel,
    acyclic_iff grove_fresh (fun a b hedge => absurd hedge (grovekeeper_childless a b)) grovekeeper_acyclic
      fun _ _ _ hmem => nomatch List.mem_singleton.1 hmem⟩

theorem hung_below_itself : ∃ (h : Host) (raw : String), h.catalog.Fresh ∧ h.hierarchy.Closed ∧
    h.hierarchy.Acyclic ∧ ¬(receive raw h).value.2.hierarchy.Acyclic := by
  refine ⟨grovekeeper, Batch.encode [graft "X" "transform:Arm"], grove_fresh,
    fun a b hedge => absurd hedge (grovekeeper_childless a b), grovekeeper_acyclic, fun hacyclic => ?_⟩
  have hvalue : (receive (Batch.encode [graft "X" "transform:Arm"]) grovekeeper).value.2.hierarchy =
      [[1], [0]] := by
    decide +kernel
  rw [hvalue] at hacyclic
  exact hacyclic 0 (.tail (.single ⟨[1], rfl, List.mem_singleton_self 1⟩) ⟨[0], rfl, List.mem_singleton_self 0⟩)

end Grafting

end Host

end SceneLink
