import SceneLink.Proofs.Scene.Basic
import SceneLink.Proofs.World.FailedWrite

namespace SceneLink

namespace Edit

variable {α β : Type} {inv : Scene → Prop}

-- An edit that keeps a property of scenes, and gives a result that `post` holds of unless it fails.
def Ensures (inv : Scene → Prop) (post : α → Prop) (p : Edit α) : Prop :=
  ∀ s, inv s → inv (p.run s).2 ∧ ∀ a, (p.run s).1 = .ok a → post a

theorem ensures_pure {post : α → Prop} {a : α} (h : post a) : Ensures inv post (pure a : Edit α) := by
  intro s hs
  refine ⟨hs, fun b hb => ?_⟩
  cases hb
  exact h

theorem ensures_throw {post : α → Prop} (e : AccessError) : Ensures inv post (throw e : Edit α) :=
  fun _ hs => ⟨hs, fun _ ha => nomatch ha⟩

theorem ensures_attempt {post : α → Prop} {result : Except AccessError α}
    (h : ∀ a, result = .ok a → post a) : Ensures inv post (attempt result) := fun _ hs => ⟨hs, h⟩

theorem ensures_reading {post : α → Prop} {w : World} {f : World → Except AccessError α}
    (h : ∀ s, inv s → ∀ a, f { w with scene := s } = .ok a → post a) : Ensures inv post (w.reading f) :=
  fun s hs => ⟨hs, h s hs⟩

theorem Ensures.bind {mid : α → Prop} {post : β → Prop} {p : Edit α} {f : α → Edit β}
    (hp : Ensures inv mid p) (hf : ∀ a, mid a → Ensures inv post (f a)) : Ensures inv post (p >>= f) := by
  intro s hs
  obtain ⟨hinv, hmid⟩ := hp s hs
  rw [bind_run]
  generalize p.run s = out at hinv hmid
  obtain ⟨result, t⟩ := out
  cases result with
  | error e => exact ⟨hinv, fun _ ha => nomatch ha⟩
  | ok a => exact hf a (hmid a rfl) t hinv

theorem ensures_change {f : Scene → Except AccessError Scene}
    (h : ∀ s t, inv s → f s = .ok t → inv t) : Ensures inv (fun _ => True) (change f) := by
  intro s hs
  rw [change_run]
  cases hf : f s with
  | error e => exact ⟨hs, fun _ _ => trivial⟩
  | ok t => exact ⟨h s t hs hf, fun _ _ => trivial⟩

theorem ensures_toValue {good : Json → Prop} {node : Node} (h : node.Holds good) :
    Ensures inv good (toValue node) := by
  intro s hs
  refine ⟨hs, fun json hjson => ?_⟩
  cases node with
  | value json =>
      cases hjson
      exact h
  | object handle => cases hjson

end Edit

namespace World

-- What has to be preserved for a property of scenes and a kind of data to be preserved by writes.
structure Preserves (w : World) (good : Json → Prop) (inv : Scene → Prop) : Prop where
  read : ∀ {s root current step child}, inv s → root.Holds good → current.Holds good →
    ({ w with scene := s } : World).stepFrom ({ w with scene := s } : World).evaluate root current step =
      .ok child → child.Holds good
  member : ∀ {s t h name value}, inv s → value.Holds good → s.setMember h name value = .ok t → inv t
  key : ∀ {s t h key value}, inv s → value.Holds good → s.setKey h key value = .ok t → inv t
  call : ∀ {s h method args}, inv s → (∀ arg ∈ args, good arg) → inv (s.call h method args).scene
  field : ∀ {fields name json}, good (.obj fields) → good json → good (.obj (Dict.insert fields name json))
  items : ∀ {items index json}, good (.arr items) → good json → good (.arr (items.set index json))
  item : ∀ {items item}, good (.arr items) → item ∈ items → good item

section Writes

variable {w : World} {good : Json → Prop} {inv : Scene → Prop} {root current value : Node} {step : Step}
  {steps : List Step}

theorem not_setItem {s t : Scene} {h : Handle} : s.setItem h ≠ .ok t := by
  intro hset
  obtain ⟨object, changed, -, -, hchanged, -⟩ := Scene.modify_eq_ok hset
  cases hchanged

theorem Preserves.setMember (hw : w.Preserves good inv) (hcurrent : current.Holds good)
    (hvalue : value.Holds good) (name : String) :
    Edit.Ensures inv (Node.Holds good) (setMember current name value) := by
  unfold World.setMember
  split
  · exact (Edit.ensures_change fun s t hs hset => hw.member hs hvalue hset).bind fun _ _ =>
      Edit.ensures_pure trivial
  · split
    · exact (Edit.ensures_toValue hvalue).bind fun json hjson => Edit.ensures_pure (hw.field hcurrent hjson)
    · exact Edit.ensures_throw _
  · exact Edit.ensures_throw _

theorem Preserves.setItem (hw : w.Preserves good inv) (hcurrent : current.Holds good)
    (hvalue : value.Holds good) (index : Nat) :
    Edit.Ensures inv (Node.Holds good) (setItem current index value) := by
  unfold World.setItem
  split
  · exact (Edit.ensures_change fun s t hs hset => absurd hset not_setItem).bind fun _ _ =>
      Edit.ensures_pure trivial
  · split
    · exact (Edit.ensures_toValue hvalue).bind fun json hjson => Edit.ensures_pure (hw.items hcurrent hjson)
    · exact Edit.ensures_throw _
  · exact Edit.ensures_throw _

theorem Preserves.setKey (hw : w.Preserves good inv) (hcurrent : current.Holds good)
    (hvalue : value.Holds good) (key : String) :
    Edit.Ensures inv (Node.Holds good) (setKey current key value) := by
  unfold World.setKey
  split
  · exact (Edit.ensures_change fun s t hs hset => hw.key hs hvalue hset).bind fun _ _ =>
      Edit.ensures_pure trivial
  · exact (Edit.ensures_toValue hvalue).bind fun json hjson => Edit.ensures_pure (hw.field hcurrent hjson)
  · exact Edit.ensures_throw _

theorem Preserves.arguments (hw : w.Preserves good inv) {json : Json} (hjson : good json) :
    ∀ arg ∈ World.arguments json, good arg := by
  unfold World.arguments
  split
  · exact fun arg harg => hw.item hjson harg
  · exact List.forall_mem_singleton.2 hjson

theorem Preserves.setAt (hw : w.Preserves good inv) (hcurrent : current.Holds good)
    (hvalue : value.Holds good) : Edit.Ensures inv (Node.Holds good) (w.setAt root current step value) := by
  have hkey : Edit.Ensures inv (fun _ => True) (w.reading fun w => w.stepKey w.evaluate root step) :=
    Edit.ensures_reading fun _ _ _ _ => trivial
  unfold World.setAt
  dsimp only
  split
  · exact hkey.bind fun name _ => hw.setMember hcurrent hvalue name
  · exact hkey.bind fun key _ => (Edit.ensures_attempt fun _ _ => trivial).bind fun index _ =>
      hw.setItem hcurrent hvalue index
  · exact hkey.bind fun key _ => hw.setKey hcurrent hvalue key
  · have hobject : Edit.Ensures inv (fun _ => True) (w.reading fun w => w.objectFor current step) :=
      Edit.ensures_reading fun _ _ _ _ => trivial
    refine hkey.bind fun method _ => hobject.bind fun h _ => (Edit.ensures_toValue hvalue).bind
      fun json hjson => ?_
    have hcall : Edit.Ensures inv (fun _ => True) (Edit.call h method (World.arguments json)) :=
      fun s hs => ⟨hw.call hs (hw.arguments hjson), fun _ _ => trivial⟩
    exact hcall.bind fun _ _ => Edit.ensures_pure hcurrent
  · exact Edit.ensures_throw _
  · exact Edit.ensures_throw _

theorem ensures_skippable {α : Type} {post : α → Prop} {p : Edit α} (hp : Edit.Ensures inv post p) :
    Edit.Ensures inv (fun result => ∀ a, result = some a → post a) (skippable step p) := by
  intro s hs
  obtain ⟨hinv, hpost⟩ := hp s hs
  rw [skippable_run]
  generalize p.run s = out at hinv hpost
  obtain ⟨result, t⟩ := out
  cases result with
  | ok a =>
      refine ⟨hinv, fun b hb c hc => hpost c ?_⟩
      cases hb
      cases hc
      rfl
  | error e =>
      cases step.conditional with
      | true =>
          refine ⟨hinv, fun b hb c hc => ?_⟩
          cases hb
          cases hc
      | false => exact ⟨hinv, fun _ hb => nomatch hb⟩

theorem Preserves.enter (hw : w.Preserves good inv) (hroot : root.Holds good) (hcurrent : current.Holds good) :
    Edit.Ensures inv (Node.Holds good) (w.enter root current step) := by
  unfold World.enter
  refine (Edit.ensures_reading fun s hs child hchild => hw.read hs hroot hcurrent hchild).bind
    fun child hchild => ?_
  split
  · exact Edit.ensures_pure hchild
  · split
    · exact Edit.ensures_pure hchild
    · exact Edit.ensures_throw _

theorem Preserves.setSteps (hw : w.Preserves good inv) (hroot : root.Holds good) (hvalue : value.Holds good)
    (hcurrent : current.Holds good) :
    Edit.Ensures inv (fun node => ∀ written, node = some written → written.Holds good)
      (w.setSteps root value steps current) := by
  induction steps generalizing current with
  | nil => exact Edit.ensures_pure fun _ hnode => nomatch hnode
  | cons step rest ih =>
      cases rest with
      | nil => exact ensures_skippable (hw.setAt hcurrent hvalue)
      | cons next rest =>
          rw [setSteps_cons_eq]
          refine (ensures_skippable (hw.enter hroot hcurrent)).bind fun child hchild => ?_
          cases child with
          | none => exact Edit.ensures_pure fun _ hnode => nomatch hnode
          | some child =>
              refine (ih (hchild child rfl)).bind fun node hnode => ?_
              split
              · exact Edit.ensures_pure fun _ hnode => nomatch hnode
              · refine Edit.ensures_pure fun written hwritten => ?_
                cases hwritten
                exact hcurrent
              · exact ensures_skippable (hw.setAt hcurrent (hnode _ rfl))

theorem Preserves.setNode (hw : w.Preserves good inv) (hroot : root.Holds good) (hvalue : value.Holds good)
    (path : Path) : Edit.Ensures inv (Node.Holds good) (w.setNode root path value) := by
  unfold World.setNode
  split
  · exact Edit.ensures_throw _
  · refine (hw.setSteps hroot hvalue hroot).bind fun node hnode => Edit.ensures_pure ?_
    cases node with
    | none => exact hroot
    | some written => exact hnode written rfl

theorem runEdit_ensures {α : Type} {post : Node × α → Prop} {edit : Edit (Node × α)}
    (h : Edit.Ensures inv post edit) (hw : inv w.scene) : inv (w.runEdit root edit).world.scene ∧
      ∀ a, (w.runEdit root edit).result = .ok a → post ((w.runEdit root edit).root, a) := by
  obtain ⟨hinv, hpost⟩ := h w.scene hw
  unfold runEdit
  generalize edit.run w.scene = out at hinv hpost ⊢
  obtain ⟨result, t⟩ := out
  cases result with
  | ok both =>
      refine ⟨hinv, fun a heq => ?_⟩
      cases heq
      exact hpost both rfl
  | error e => exact ⟨hinv, fun _ heq => nomatch heq⟩

theorem Preserves.set (hw : w.Preserves good inv) (hscene : inv w.scene) (hroot : root.Holds good)
    (hvalue : value.Holds good) (path : Path) : inv (w.set root path value).world.scene := by
  have hedit : Edit.Ensures inv (fun _ => True)
      (do return (← w.setNode root path value, ()) : Edit (Node × Unit)) :=
    (hw.setNode hroot hvalue path).bind fun _ _ => Edit.ensures_pure trivial
  exact (runEdit_ensures hedit hscene).1

theorem Preserves.assign (hw : w.Preserves good inv) (hscene : inv w.scene) (hroot : root.Holds good)
    {path : Path} {expr : Expression}
    (hexpr : ∀ s, inv s → ∀ value, ({ w with scene := s } : World).valueOf root path expr = .ok value →
      value.Holds good) :
    inv (w.assign root path expr).world.scene ∧
      ∀ value, (w.assign root path expr).result = .ok value → value.Holds good := by
  have hedit : Edit.Ensures inv (fun out => out.2.Holds good)
      (do
        let value ← w.reading fun w => w.valueOf root path expr
        return (← w.setNode root path value, value) : Edit (Node × Node)) :=
    (Edit.ensures_reading hexpr).bind fun value hvalue =>
      (hw.setNode hroot hvalue path).bind fun _ _ => Edit.ensures_pure hvalue
  exact runEdit_ensures hedit hscene

end Writes

end World

end SceneLink
