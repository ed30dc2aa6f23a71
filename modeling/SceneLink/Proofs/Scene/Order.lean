import SceneLink.Proofs.Json.Order
import SceneLink.Proofs.Outcome
import SceneLink.Proofs.Scene.Basic

namespace SceneLink

open Json

theorem Vec3.sorted_toJson (v : Vec3) : v.toJson.Sorted :=
  ⟨sorted_ofDouble _, sorted_ofDouble _, sorted_ofDouble _, trivial⟩

namespace Object

def Ordered : Object → Prop
  | entity _ => True
  | component c => (obj c.fields).Sorted

variable {object changed : Object} {json : Json}

theorem sorted_read {e : Entity} {member : Entity.Member} (h : e.read member = json) : json.Sorted := by
  subst h
  cases member with
  | name | tag | active => trivial
  | position | rotation | scale => exact Vec3.sorted_toJson _
  | childCount =>
      unfold Entity.read ofNat
      -- Otherwise the bounds of whole numbers are compared with a natural number.
      generalize (e.children.length : Int) = count
      exact sorted_ofInt count
  | receivedEvents => exact sorted_ofStrings _

theorem Ordered.member? (h : object.Ordered) {name : String} (hmember : object.member? name = some json) :
    json.Sorted := by
  cases object with
  | entity e =>
      obtain ⟨member, -, rfl⟩ := Option.map_eq_some_iff.1 hmember
      exact sorted_read rfl
  | component c =>
      change (if name = "enabled" then some (.bool c.enabled) else c.fields.get? name) = some json at hmember
      split at hmember
      · cases hmember
        trivial
      · exact sorted_of_get? h hmember

theorem Ordered.key (h : object.Ordered) {key : String} {node : Node} (hkey : object.key key = .ok node) :
    node.Holds Json.Sorted := by
  cases object with
  | entity e => cases hkey
  | component c =>
      unfold Object.key at hkey
      dsimp only at hkey
      split at hkey
      · next json hget =>
        cases hkey
        exact sorted_of_get? h hget
      · cases hkey

theorem holds_item {good : Json → Prop} {index : Nat} {node : Node} (hitem : object.item index = .ok node) :
    node.Holds good := by
  cases object with
  | component c => cases hitem
  | entity e =>
      unfold Object.item at hitem
      dsimp only at hitem
      split at hitem
      · cases hitem
        trivial
      · cases hitem

theorem ordered_put {found : Node → String} {c d : Component} {name : String} {value : Node}
    (h : (component c).Ordered) (hvalue : value.Holds Json.Sorted) (hput : c.put found name value = .ok d) :
    (component d).Ordered := by
  obtain ⟨json, hjson, rfl⟩ := ok_of_map hput
  cases value with
  | object handle => cases hjson
  | value held =>
      cases hjson
      exact sorted_insert h hvalue

theorem Ordered.setMember (h : object.Ordered) {found : Node → String} {name : String} {value : Node}
    (hvalue : value.Holds Json.Sorted) (hset : object.setMember found name value = .ok changed) :
    changed.Ordered := by
  cases object with
  | entity e =>
      obtain ⟨d, -, rfl⟩ := ok_of_map hset
      trivial
  | component c =>
      obtain ⟨d, hd, rfl⟩ := ok_of_map hset
      unfold Component.setMember at hd
      split at hd
      · obtain ⟨b, -, rfl⟩ := ok_of_map hd
        exact h
      · split at hd
        · exact ordered_put h hvalue hd
        · cases hd

theorem Ordered.setKey (h : object.Ordered) {found : Node → String} {key : String} {value : Node}
    (hvalue : value.Holds Json.Sorted) (hset : object.setKey found key value = .ok changed) :
    changed.Ordered := by
  cases object with
  | entity e => cases hset
  | component c =>
      obtain ⟨d, hd, rfl⟩ := ok_of_map hset
      exact ordered_put h hvalue hd

theorem Ordered.receive (h : object.Ordered) (events : List String) :
    (events.foldl Object.receive object).Ordered := by
  induction events generalizing object with
  | nil => exact h
  | cons event events ih => exact ih (by cases object <;> exact h)

theorem ordered_invoke {method : String} {args : List Json} {called : Called Object}
    (hcalled : object.invoke? method args = some called) :
    called.target.Ordered ∧ ∀ json, called.result = .ok json → json.Sorted := by
  cases object with
  | component c => cases hcalled
  | entity e =>
      obtain ⟨called, hinvoke, rfl⟩ := Option.map_eq_some_iff.1 hcalled
      refine ⟨trivial, fun json hjson => ?_⟩
      change called.result = .ok json at hjson
      unfold Entity.invoke? at hinvoke
      split at hinvoke
      · cases hinvoke
        unfold Entity.setActive at hjson
        split at hjson
        · cases hjson
          trivial
        · cases hjson
      · cases hinvoke
        unfold Entity.translate at hjson
        split at hjson
        · unfold Entity.translateBy at hjson
          dsimp only at hjson
          split at hjson
          · cases hjson
          · split at hjson
            · cases hjson
            · split at hjson
              · cases hjson
              · cases hjson
                exact Vec3.sorted_toJson _
        · cases hjson
      · cases hinvoke
        have hread : e.read .childCount = json := Except.ok.inj hjson
        exact sorted_read hread
      · cases hinvoke

end Object

namespace Scene

def Ordered (s : Scene) : Prop := ∀ object ∈ s.objects, object.Ordered

variable {s t : Scene} {h child : Handle} {object : Object}

theorem Ordered.of_get? (hs : s.Ordered) (hobject : s.objects[h]? = some object) : object.Ordered :=
  hs object (List.mem_of_getElem? hobject)

theorem Ordered.put (hs : s.Ordered) (hobject : object.Ordered) (h : Handle) : (s.put h object).Ordered := by
  intro other hother
  rcases List.mem_or_eq_of_mem_set hother with hother | rfl
  · exact hs other hother
  · exact hobject

theorem Ordered.modify (hs : s.Ordered) {change : (Node → String) → Object → Except AccessError Object}
    (hchange : ∀ found object changed, object.Ordered → change found object = .ok changed → changed.Ordered)
    (hmodify : s.modify h change = .ok t) : t.Ordered := by
  obtain ⟨object, changed, -, hheld, hchanged, rfl⟩ := modify_eq_ok hmodify
  exact hs.put (hchange _ _ _ (hs.of_get? hheld) hchanged) h

theorem Ordered.setMember (hs : s.Ordered) {name : String} {value : Node} (hvalue : value.Holds Json.Sorted)
    (hset : s.setMember h name value = .ok t) : t.Ordered :=
  hs.modify (fun _ _ _ hobject => hobject.setMember hvalue) hset

theorem Ordered.setKey (hs : s.Ordered) {key : String} {value : Node} (hvalue : value.Holds Json.Sorted)
    (hset : s.setKey h key value = .ok t) : t.Ordered :=
  hs.modify (fun _ _ _ hobject => hobject.setKey hvalue) hset

theorem Ordered.deliver (hs : s.Ordered) {events : List String} (hdeliver : s.deliver h events = .ok t) :
    t.Ordered :=
  hs.modify (fun _ _ _ hobject hchange => Except.ok.inj hchange ▸ hobject.receive events) hdeliver

theorem Ordered.addComponent (hs : s.Ordered) {component : Handle}
    (hadd : s.addComponent h component = .ok t) : t.Ordered := by
  refine hs.modify (fun found object changed _ hchange => ?_) hadd
  cases object with
  | entity e =>
      cases hchange
      trivial
  | component c => cases hchange

theorem Ordered.call (hs : s.Ordered) (h : Handle) (method : String) (args : List Json) :
    (s.call h method args).scene.Ordered := by
  unfold Scene.call
  cases s.writable h with
  | error e => exact hs
  | ok object =>
      dsimp only
      cases hcalled : object.invoke? method args with
      | none => exact hs
      | some called => exact hs.put (Object.ordered_invoke hcalled).1 h

theorem sorted_call {method : String} {args : List Json} {json : Json}
    (hcall : (s.call h method args).result = .ok json) : json.Sorted := by
  unfold Scene.call at hcall
  cases hobject : s.writable h with
  | error e =>
      rw [hobject] at hcall
      cases hcall
  | ok object =>
      rw [hobject] at hcall
      dsimp only at hcall
      cases hcalled : object.invoke? method args with
      | none =>
          rw [hcalled] at hcall
          cases hcall
      | some called =>
          rw [hcalled] at hcall
          exact (Object.ordered_invoke hcalled).2 json (ok_of_mapError hcall)

theorem Ordered.rebase (hs : s.Ordered) {origin : Vec3} (hrebase : s.rebase child origin = .ok t) :
    t.Ordered := by
  obtain ⟨object, -, hrebase⟩ := ok_of_bind hrebase
  split at hrebase
  · cases hrebase
    exact hs
  · obtain ⟨world, -, hset⟩ := ok_of_bind hrebase
    have hvalue : Node.Holds Json.Sorted (.value (world.sub origin).toJson) := Vec3.sorted_toJson _
    exact hs.setMember hvalue hset

theorem Ordered.addChild (hs : s.Ordered) {stays : Bool} (hadd : s.addChild h child stays = .ok t) :
    t.Ordered := by
  obtain ⟨object, -, hadd⟩ := ok_of_bind hadd
  cases object with
  | component c => cases hadd
  | entity e =>
      have hplace {moved : Scene} (hmoved : moved.Ordered) (parent : Entity) :
          ({ s with objects := moved.objects }.put h (.entity parent)).Ordered := by
        have hobjects : Scene.Ordered { s with objects := moved.objects } := hmoved
        have hparent : (Object.entity parent).Ordered := trivial
        exact hobjects.put hparent h
      cases stays with
      | false =>
          cases hadd
          exact hplace hs _
      | true =>
          obtain ⟨moved, hmoved, hput⟩ := ok_of_bind hadd
          cases hput
          have hused : (s.inUse h .writing).Ordered := hs
          exact hplace (hused.rebase hmoved) _

end Scene

namespace Blueprint

mutual

def Ordered : Blueprint → Prop
  | entity _ _ components children => OrderedAll components ∧ OrderedAll children
  | component _ fields => ∀ field ∈ fields, field.2.Sorted
  | existing _ => True

def OrderedAll : List Blueprint → Prop
  | [] => True
  | plan :: plans => Ordered plan ∧ OrderedAll plans

end

theorem ordered_add {s : Scene} {object : Object} (hs : s.Ordered) (hobject : object.Ordered) :
    (s.add object).2.Ordered := by
  intro other hother
  rcases List.mem_append.1 hother with hother | hother
  · exact hs other hother
  · rwa [List.mem_singleton.1 hother]

mutual

theorem ordered_build : (plan : Blueprint) → (s : Scene) → plan.Ordered → s.Ordered → (plan.build s).2.Ordered
  | entity _ _ components children, s, hplan, hs => by
      have hcomponents := ordered_buildAll components s hplan.1 hs
      have hchildren := ordered_buildAll children (buildAll components s).2 hplan.2 hcomponents
      exact ordered_add hchildren trivial
  | component _ _, _, hplan, hs => ordered_add hs (sorted_ofFields hplan)
  | existing _, _, _, hs => hs

theorem ordered_buildAll : (plans : List Blueprint) → (s : Scene) → OrderedAll plans → s.Ordered →
    (buildAll plans s).2.Ordered
  | [], _, _, hs => hs
  | plan :: plans, s, hplans, hs =>
      ordered_buildAll plans (plan.build s).2 hplans.2 (ordered_build plan s hplans.1 hs)

end

end Blueprint

end SceneLink
