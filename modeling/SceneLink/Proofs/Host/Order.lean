import SceneLink.Proofs.Host.Creation
import SceneLink.Proofs.Motion.Order
import SceneLink.Proofs.Operation.Minimal

namespace SceneLink

open Json

structure Catalog.Ordered (c : Catalog) : Prop where
  prefabs : ∀ name plan, c.prefabs.get? name = some plan → plan.Ordered
  components : ∀ name plan, c.components.get? name = some plan → plan.Ordered

def Registry.Ordered (r : Registry) : Prop :=
  ∀ entry ∈ r.entries, ∀ interest ∈ entry.2.interests, interest.2.query.Sorted

section Registry

variable {r : Registry}

theorem Registry.Ordered.insert (hr : r.Ordered) {id : String} {entry : Registration}
    (hentry : ∀ interest ∈ entry.interests, interest.2.query.Sorted) (names : Dict Handle String) :
    Registry.Ordered { entries := r.entries.insert id entry, names } := by
  intro other hother
  rcases Dict.mem_insert hother with rfl | hother
  · exact hentry
  · exact hr other hother

theorem Registry.Ordered.mapInterests (hr : r.Ordered) (id : String)
    {change : Dict String InterestSpec → Dict String InterestSpec}
    (hchange : ∀ interests : Dict String InterestSpec, (∀ interest ∈ interests, interest.2.query.Sorted) →
      ∀ interest ∈ change interests, interest.2.query.Sorted) : (r.mapInterests id change).Ordered := by
  unfold Registry.mapInterests
  cases hentry : r.entries.get? id with
  | none => exact hr
  | some entry =>
      exact hr.insert (hchange _ (hr _ (Dict.mem_of_get? hentry))) r.names

theorem Registry.Ordered.remove (hr : r.Ordered) (id : String) : (r.remove id).Ordered := by
  unfold Registry.remove
  cases r.entries.get? id with
  | none => exact hr
  | some entry => exact fun other hother => hr other (List.mem_filter.1 hother).1

end Registry

namespace Host

structure Ordered (h : Host) : Prop where
  world : h.world.Ordered
  registry : h.world.registry.Ordered
  tweens : ∀ t ∈ h.animator, t.Ordered
  catalog : h.catalog.Ordered

variable {h : Host} {id : String} {object : Handle}

section Steps

theorem Ordered.setScene (hh : h.Ordered) {scene : Scene} (hscene : scene.Ordered) : (h.setScene scene).Ordered :=
  ⟨⟨hscene, hh.world.resources⟩, hh.registry, hh.tweens, hh.catalog⟩

theorem Ordered.interestData (hh : h.Ordered) {event : String} {results : Dict String Json}
    (hdata : (h.interestData id event).value = some results) : (record results).Sorted := by
  unfold Host.interestData at hdata
  split at hdata
  · cases hdata
  · next entry hentry =>
    split at hdata
    · cases hdata
    · next spec hspec =>
      have hpaths := hh.registry _ (Dict.mem_of_get? hentry) _ (Dict.mem_of_get? hspec)
      have hroot : (Node.object entry.handle).Ordered := trivial
      have hresults := hh.world.query hroot hpaths
      rwa [show (h.world.query (.object entry.handle) spec.query).value = results from Option.some.inj hdata]
        at hresults

theorem Ordered.deliver (hh : h.Ordered) (object : Handle) (events : List TemplateEvent) :
    (deliver object events h).value.2.Ordered := by
  rw [deliver_value]
  cases hscene : h.world.scene.deliver object (events.map (·.event)) with
  | error e => exact hh
  | ok scene => exact hh.setScene (hh.world.scene.deliver hscene)

theorem Ordered.attach (hh : h.Ordered) (child : Handle) (parent : String) (stays : Bool) :
    (attach child parent stays h).value.2.Ordered := by
  rcases attach_cases child parent stays h with ⟨e, he⟩ | ⟨above, scene, hattach, -, -, hadd⟩
  · rw [he]
    exact hh
  · rw [hattach]
    exact hh.setScene (hh.world.scene.addChild hadd)

theorem Ordered.assign (hh : h.Ordered) (object : Handle) (text : String) {raw : Json} (hraw : raw.Sorted) :
    (assign object text raw h).value.2.Ordered ∧
      ∀ json, (assign object text raw h).value.1 = .ok (some json) → json.Sorted := by
  rw [assign_value]
  cases Path.parse text with
  | error e => exact ⟨hh, fun _ h => nomatch h⟩
  | ok path =>
      cases hexpr : Expression.ofJson raw with
      | error e => exact ⟨hh, fun _ h => nomatch h⟩
      | ok expr =>
          have hroot : (Node.object object).Ordered := trivial
          obtain ⟨hworld, hresult⟩ := hh.world.assign hroot (Expression.sorted_ofJson hraw hexpr)
          obtain ⟨scene, hscene⟩ := h.world.assign_world (.object object) path expr
          refine ⟨⟨hworld, ?_, hh.tweens, hh.catalog⟩, fun json hjson => ?_⟩
          · dsimp only
            rw [hscene]
            exact hh.registry
          · obtain ⟨node, hnode, heq⟩ := ok_of_map hjson
            split at heq
            · cases heq
              exact h.world.registry.sorted_toJson (hresult node (ok_of_mapError hnode))
            · cases heq

theorem applyUpdate_cons (id : String) (object : Handle) (text : String) (raw : Json)
    (rest : Dict String Json) (h : Host) : (applyUpdate id object ((text, raw) :: rest) h).value =
      ((applyUpdate id object rest (assign object text raw h).value.2).value.1.map fun reported =>
          match (assign object text raw h).value.1 with
          | .ok (some json) => (text, json) :: reported
          | _ => reported,
        (applyUpdate id object rest (assign object text raw h).value.2).value.2) := by
  rw [Host.applyUpdate, Procedure.bind_value, Procedure.outcome_value]
  dsimp only
  cases (assign object text raw h).value.1 with
  | error e =>
      dsimp only
      rw [Procedure.bind_value, Procedure.log_value]
      dsimp only
      rw [Procedure.bind_value]
      rcases (applyUpdate id object rest (assign object text raw h).value.2).value with ⟨result, k⟩
      cases result <;> rfl
  | ok json =>
      dsimp only
      rw [Procedure.bind_value]
      rcases (applyUpdate id object rest (assign object text raw h).value.2).value with ⟨result, k⟩
      cases result <;> cases json <;> rfl

-- The reports on an update stand in the order of its paths.
theorem Ordered.applyUpdate (hh : h.Ordered) (id : String) (object : Handle) {assignments : Dict String Json}
    (hassignments : (record assignments).Sorted) : (applyUpdate id object assignments h).value.2.Ordered ∧
      ∀ reported, (applyUpdate id object assignments h).value.1 = .ok reported → (record reported).Sorted := by
  obtain ⟨hkeys, hraw⟩ := sorted_obj.1 hassignments
  suffices hall : (Host.applyUpdate id object assignments h).value.2.Ordered ∧
      ∀ reported, (Host.applyUpdate id object assignments h).value.1 = .ok reported →
        (Dict.keys reported).Sublist assignments.keys ∧ ∀ field ∈ reported, field.2.Sorted by
    refine ⟨hall.1, fun reported hreported => ?_⟩
    obtain ⟨hsublist, hvalues⟩ := hall.2 reported hreported
    exact sorted_obj.2 ⟨Dict.sorted_of_keys_sublist hsublist hkeys, hvalues⟩
  clear hassignments hkeys
  induction assignments generalizing h with
  | nil =>
      refine ⟨hh, fun reported hreported => ?_⟩
      cases hreported
      exact ⟨.refl _, fun _ h => nomatch h⟩
  | cons entry rest ih =>
      obtain ⟨text, raw⟩ := entry
      obtain ⟨hfirst, hothers⟩ := List.forall_mem_cons.1 hraw
      obtain ⟨hnext, hjson⟩ := hh.assign object text hfirst
      obtain ⟨hlast, hreports⟩ := ih hnext hothers
      rw [applyUpdate_cons]
      refine ⟨hlast, fun reported hreported => ?_⟩
      obtain ⟨others, hrest, rfl⟩ := ok_of_map hreported
      obtain ⟨hsublist, hvalues⟩ := hreports others hrest
      split
      · next json heq => exact ⟨hsublist.cons_cons text, List.forall_mem_cons.2 ⟨hjson json heq, hvalues⟩⟩
      · exact ⟨hsublist.cons text, hvalues⟩

theorem Ordered.instantiate (hh : h.Ordered) {template : Template} {scene : Scene}
    (hbuilt : (h.instantiate template).value = .ok (object, scene)) : scene.Ordered := by
  unfold Host.instantiate at hbuilt
  split at hbuilt
  · next name _ =>
    split at hbuilt
    · cases hbuilt
    · next plan hplan =>
      have hbuild : plan.build h.world.scene = (object, scene) := Except.ok.inj hbuilt
      have hordered :=
        Blueprint.ordered_build plan h.world.scene (hh.catalog.prefabs name plan hplan) hh.world.scene
      rwa [hbuild] at hordered
  · let name := String.ofList (Text.lastPiece '/' template.kind.toList)
    have hbuild : (Blueprint.entity name none [] []).build h.world.scene = (object, scene) :=
      Except.ok.inj hbuilt
    have hplan : (Blueprint.entity name none [] []).Ordered := by constructor <;> trivial
    have hordered := Blueprint.ordered_build _ h.world.scene hplan hh.world.scene
    rwa [hbuild] at hordered

theorem Ordered.addComponent (hh : h.Ordered) {template : Template} {scene next : Scene} (hscene : scene.Ordered)
    (hadd : h.addComponent template object scene = .ok next) : next.Ordered := by
  unfold Host.addComponent at hadd
  split at hadd
  · cases hadd
    exact hscene
  · next name _ =>
    split at hadd
    · cases hadd
    · next plan hplan =>
      have hbuilt := Blueprint.ordered_build plan scene (hh.catalog.components name plan hplan) hscene
      exact hbuilt.addComponent (ok_of_mapError hadd)

theorem Ordered.place (hh : h.Ordered) (template : Template) : (place template h).value.2.Ordered := by
  rcases place_value template h with ⟨e, he⟩ | ⟨object, scene, hplace, -⟩
  · rw [he]
    exact hh
  · obtain ⟨built, hbuilt, hadd⟩ := place_scene hplace
    have hnone : ∀ interest ∈ ({ handle := object } : Registration).interests, interest.2.query.Sorted :=
      fun _ h => nomatch h
    rw [hplace]
    exact ⟨⟨hh.addComponent (hh.instantiate hbuilt) hadd, hh.world.resources⟩,
      hh.registry.insert hnone _, hh.tweens, hh.catalog⟩

end Steps

end Host

end SceneLink
