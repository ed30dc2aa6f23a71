import SceneLink.Proofs.Expression.Order
import SceneLink.Proofs.Host.Frame
import SceneLink.Proofs.Scene.Order
import SceneLink.Proofs.World.Preservation

namespace SceneLink

open Json

abbrev Node.Ordered : Node → Prop := Node.Holds Json.Sorted

theorem Node.Ordered.toValue {node : Node} {found : Node → String} {json : Json} (hnode : node.Ordered)
    (h : node.toValue found = .ok json) : json.Sorted := by
  cases node with
  | object handle => cases h
  | value held =>
      cases h
      exact hnode

theorem Registry.sorted_toJson (r : Registry) {node : Node} (hnode : node.Ordered) : (r.toJson node).Sorted := by
  cases node with
  | value json => exact hnode
  | object h =>
      unfold Registry.toJson
      dsimp only
      split <;> trivial

namespace World

structure Ordered (w : World) : Prop where
  scene : w.scene.Ordered
  resources : ∀ name node, w.resources.get? name = some node → node.Ordered

variable {w : World} {eval : Evaluator} {root current child : Node} {step : Step} {steps : List Step}
  {path : Path}

def Evaluator.Ordered (eval : Evaluator) : Prop :=
  ∀ root current text node, root.Ordered → current.Ordered → eval root current text = .ok node → node.Ordered

section Reading

theorem Ordered.memberOf (hw : w.Ordered) (hcurrent : current.Ordered) {name : String}
    (h : w.memberOf current name = .ok child) : child.Ordered := by
  cases current with
  | object handle =>
      obtain ⟨object, hread, h⟩ := ok_of_bind h
      split at h
      · next json hmember =>
        cases h
        exact (hw.scene.of_get? (Scene.read_eq_ok.1 hread).2).member? hmember
      · cases h
  | value json =>
      cases json with
      | obj fields =>
          unfold World.memberOf at h
          dsimp only at h
          split at h
          · next json hget =>
            cases h
            exact sorted_of_get? hcurrent hget
          · cases h
      | _ => cases h

theorem Ordered.keyedIn (hw : w.Ordered) (hcurrent : current.Ordered) {key : String}
    (h : w.keyedIn current key = .ok child) : child.Ordered := by
  cases current with
  | object handle =>
      obtain ⟨object, hread, hkey⟩ := ok_of_bind h
      exact (hw.scene.of_get? (Scene.read_eq_ok.1 hread).2).key hkey
  | value json =>
      cases json with
      | obj fields =>
          unfold World.keyedIn at h
          dsimp only at h
          split at h
          · next json hget =>
            cases h
            exact sorted_of_get? hcurrent hget
          · cases h
      | _ => cases h

theorem ordered_itemOf (hcurrent : current.Ordered) {index : Nat} (h : w.itemOf current index = .ok child) :
    child.Ordered := by
  cases current with
  | object handle =>
      obtain ⟨object, -, hitem⟩ := ok_of_bind h
      exact Object.holds_item hitem
  | value json =>
      cases json with
      | arr items =>
          unfold World.itemOf at h
          dsimp only at h
          split at h
          · next json hget =>
            cases h
            exact sorted_of_mem_items hcurrent (List.mem_of_getElem? hget)
          · cases h
      | _ => cases h

theorem ordered_literalAt (heval : Evaluator.Ordered eval) (hroot : root.Ordered) (hcurrent : current.Ordered)
    {type : Literal} (h : w.literalAt eval root current step type = .ok child) : child.Ordered := by
  unfold literalAt at h
  split at h
  · obtain ⟨node, hnode, h⟩ := ok_of_bind h
    obtain ⟨value, hvalue, h⟩ := ok_of_bind h
    obtain ⟨json, hjson, h⟩ := ok_of_bind h
    cases h
    exact Literal.sorted_coerce ((heval _ _ _ _ hroot hcurrent hnode).toValue hvalue) hjson
  · split at h
    · next json hread =>
      cases h
      exact Literal.sorted_read? hread
    · cases h

theorem Ordered.stepFrom (hw : w.Ordered) (heval : Evaluator.Ordered eval) (hroot : root.Ordered)
    (hcurrent : current.Ordered) (h : w.stepFrom eval root current step = .ok child) : child.Ordered := by
  unfold World.stepFrom at h
  split at h
  · obtain ⟨name, -, h⟩ := ok_of_bind h
    exact hw.memberOf hcurrent h
  · obtain ⟨key, -, h⟩ := ok_of_bind h
    obtain ⟨index, -, h⟩ := ok_of_bind h
    exact ordered_itemOf hcurrent h
  · obtain ⟨key, -, h⟩ := ok_of_bind h
    exact hw.keyedIn hcurrent h
  · obtain ⟨name, -, h⟩ := ok_of_bind h
    obtain ⟨handle, -, h⟩ := ok_of_bind h
    obtain ⟨object, -, h⟩ := ok_of_bind h
    split at h <;> cases h
    trivial
  · obtain ⟨name, -, h⟩ := ok_of_bind h
    obtain ⟨handle, -, h⟩ := ok_of_bind h
    obtain ⟨object, -, h⟩ := ok_of_bind h
    split at h <;> cases h
    trivial
  · obtain ⟨name, -, h⟩ := ok_of_bind h
    split at h
    · next node hget =>
      cases h
      exact hw.resources name _ hget
    · cases h
  · obtain ⟨id, -, h⟩ := ok_of_bind h
    split at h <;> cases h
    trivial
  · obtain ⟨method, -, h⟩ := ok_of_bind h
    obtain ⟨handle, -, h⟩ := ok_of_bind h
    obtain ⟨json, hcall, rfl⟩ := ok_of_map h
    exact Scene.sorted_call hcall
  · exact ordered_literalAt heval hroot hcurrent h
  · cases h

theorem Ordered.walk (hw : w.Ordered) (heval : Evaluator.Ordered eval) (hroot : root.Ordered)
    (hcurrent : current.Ordered) (h : w.walk eval root steps current = .ok child) : child.Ordered := by
  induction steps generalizing current with
  | nil =>
      cases h
      exact hcurrent
  | cons step steps ih =>
      unfold World.walk at h
      split at h
      · next node hnode => exact ih (hw.stepFrom heval hroot hcurrent hnode) h
      · split at h <;> cases h
        trivial

-- A reference within a text is read with less room, so this is by induction on the room.
theorem Ordered.evaluateWithin (hw : w.Ordered) (room : Nat) : Evaluator.Ordered (evaluateWithin room w) := by
  induction room with
  | zero =>
      intro root current text node _ _ h
      cases h
      trivial
  | succ room ih =>
      intro root current text node hroot hcurrent h
      unfold World.evaluateWithin at h
      split at h
      · cases h
      · next json hexpr =>
        cases h
        exact Expression.sorted_ofJson (sorted_ofText text) hexpr
      · exact hw.walk ih hroot hroot h
      · next change hexpr =>
        obtain ⟨base, hbase, h⟩ := ok_of_bind h
        have hchange := Expression.sorted_ofJson (sorted_ofText text) hexpr
        split at h
        · next json happly =>
          cases h
          exact Expression.sorted_change hchange (hcurrent.toValue hbase) happly
        · cases h

theorem Ordered.evaluate (hw : w.Ordered) : Evaluator.Ordered w.evaluate :=
  fun root current text node => hw.evaluateWithin text.length root current text node

theorem Ordered.get (hw : w.Ordered) (hroot : root.Ordered) (h : w.get root path = .ok child) : child.Ordered :=
  hw.walk hw.evaluate hroot hroot h

theorem query_cons (w : World) (root : Node) (name : String) (path : Path) (rest : Dict String Path) :
    (w.query root ((name, path) :: rest)).value = match w.get root path with
      | .ok node => (name, w.registry.toJson node) :: (w.query root rest).value
      | .error _ => (w.query root rest).value := by
  rw [World.query]
  cases w.get root path <;> rfl

theorem keys_query (w : World) (root : Node) (paths : Dict String Path) :
    (Dict.keys (w.query root paths).value).Sublist paths.keys := by
  induction paths with
  | nil => exact List.Sublist.refl _
  | cons entry rest ih =>
      obtain ⟨name, path⟩ := entry
      rw [query_cons]
      cases w.get root path with
      | ok node => exact ih.cons_cons name
      | error e => exact ih.cons name

theorem Ordered.query (hw : w.Ordered) (hroot : root.Ordered) {paths : Dict String Path} (hpaths : paths.Sorted) :
    (record (w.query root paths).value).Sorted := by
  refine sorted_obj.2 ⟨Dict.sorted_of_keys_sublist (keys_query w root paths) hpaths, fun field hfield => ?_⟩
  clear hpaths
  induction paths with
  | nil => cases hfield
  | cons entry rest ih =>
      obtain ⟨name, path⟩ := entry
      rw [query_cons] at hfield
      cases hget : w.get root path with
      | error e =>
          rw [hget] at hfield
          exact ih hfield
      | ok node =>
          rw [hget] at hfield
          rcases List.mem_cons.1 hfield with rfl | hfield
          · exact w.registry.sorted_toJson (hw.get hroot hget)
          · exact ih hfield

end Reading

section Writing

theorem Ordered.preserves (hw : w.Ordered) : w.Preserves Json.Sorted Scene.Ordered where
  read hs hroot hcurrent hchild :=
    have hworld : World.Ordered { w with scene := _ } := ⟨hs, hw.resources⟩
    hworld.stepFrom hworld.evaluate hroot hcurrent hchild
  member hs hvalue hset := hs.setMember hvalue hset
  key hs hvalue hset := hs.setKey hvalue hset
  call hs _ := hs.call _ _ _
  field hfields hjson := sorted_insert hfields hjson
  items hitems hjson := sorted_set hitems _ hjson
  item hitems hmem := sorted_arr.1 hitems _ hmem

theorem Ordered.set (hw : w.Ordered) (hroot : root.Ordered) {value : Node} (hvalue : value.Ordered) :
    (w.set root path value).world.Ordered := by
  obtain ⟨scene, hscene⟩ := w.set_world root path value
  have hkept := hw.preserves.set hw.scene hroot hvalue path
  rw [hscene] at hkept ⊢
  exact ⟨hkept, hw.resources⟩

theorem Ordered.valueOf (hw : w.Ordered) (hroot : root.Ordered) {expr : Expression} (hexpr : expr.Sorted)
    {value : Node} (h : w.valueOf root path expr = .ok value) : value.Ordered := by
  cases expr with
  | literal json =>
      cases h
      exact hexpr
  | reference source => exact hw.get hroot h
  | change change =>
      have hchanged {current json : Json} (hcurrent : current.Sorted)
          (happly : change.apply current = .ok json) : (Node.value json).Ordered :=
        Expression.sorted_change hexpr hcurrent happly
      have hnull : Json.Sorted .null := trivial
      unfold World.valueOf at h
      dsimp only at h
      split at h
      · next node hget =>
        obtain ⟨current, hcurrent, h⟩ := ok_of_bind h
        split at h
        · next json happly =>
          cases h
          exact hchanged ((hw.get hroot hget).toValue hcurrent) happly
        · cases h
      · obtain ⟨current, hcurrent, h⟩ := ok_of_bind h
        cases hcurrent
        split at h
        · next json happly =>
          cases h
          exact hchanged hnull happly
        · cases h
      · obtain ⟨current, hcurrent, -⟩ := ok_of_bind h
        cases hcurrent

theorem Ordered.assign (hw : w.Ordered) (hroot : root.Ordered) {expr : Expression} (hexpr : expr.Sorted) :
    (w.assign root path expr).world.Ordered ∧
      ∀ value, (w.assign root path expr).result = .ok value → value.Ordered := by
  obtain ⟨scene, hscene⟩ := w.assign_world root path expr
  obtain ⟨hkept, hresult⟩ := hw.preserves.assign hw.scene hroot
    fun s hs value (hvalue : World.valueOf _ _ path expr = _) =>
    have hworld : World.Ordered { w with scene := s } := ⟨hs, hw.resources⟩
    hworld.valueOf hroot hexpr hvalue
  rw [hscene] at hkept ⊢
  exact ⟨⟨hkept, hw.resources⟩, hresult⟩

end Writing

end World

end SceneLink
