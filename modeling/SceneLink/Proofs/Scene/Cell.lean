import SceneLink.Proofs.Dict
import SceneLink.Proofs.Scene.Basic

namespace SceneLink

-- A field of a component, or the switch that every component has.
structure Cell where
  handle : Handle
  field : Option String
deriving DecidableEq

namespace Component

def held? (c : Component) : Option String → Option Json
  | none => some (.bool c.enabled)
  | some name => c.fields.get? name

def hold? (c : Component) : Option String → Json → Option Component
  | none, .bool b => some { c with enabled := b }
  | none, _ => none
  | some name, json => some { c with fields := c.fields.insert name json }

variable {c d : Component} {field other : Option String} {json : Json}

theorem held?_hold? (h : c.hold? field json = some d) : d.held? field = some json := by
  cases field with
  | none =>
      cases json with
      | bool b =>
          cases h
          rfl
      | _ => cases h
  | some name =>
      cases h
      exact (Dict.get?_insert _ _ _ _).trans (if_pos rfl)

theorem held?_hold?_of_ne (h : c.hold? field json = some d) (hne : other ≠ field) :
    d.held? other = c.held? other := by
  cases field with
  | none =>
      cases json with
      | bool b =>
          cases h
          cases other with
          | none => exact absurd rfl hne
          | some name => rfl
      | _ => cases h
  | some name =>
      cases h
      cases other with
      | none => rfl
      | some key => exact (Dict.get?_insert _ _ _ _).trans (if_neg fun heq => hne (congrArg some heq))

theorem hold?_self (hc : c.fields.Sorted) (hheld : c.held? field = some json)
    (h : c.hold? field json = some d) : d = c := by
  cases field with
  | none =>
      cases hheld
      cases h
      rfl
  | some name =>
      cases h
      rw [Dict.insert_eq_self hc hheld]

theorem hold?_hold? (h : c.hold? field json = some d) (value : Json) :
    d.hold? field value = c.hold? field value := by
  cases field with
  | none =>
      cases json with
      | bool b =>
          cases h
          cases value <;> rfl
      | _ => cases h
  | some name =>
      cases h
      exact congrArg some (by rw [Dict.insert_insert])

theorem sorted_hold? (hc : c.fields.Sorted) (h : c.hold? field json = some d) : d.fields.Sorted := by
  cases field with
  | none =>
      cases json with
      | bool b =>
          cases h
          exact hc
      | _ => cases h
  | some name =>
      cases h
      exact Dict.sorted_insert hc name json

end Component

namespace Scene

def IsComponent (s : Scene) (h : Handle) : Prop := ∃ c, s.objects[h]? = some (.component c)

def FieldsSorted (s : Scene) : Prop := ∀ c, Object.component c ∈ s.objects → c.fields.Sorted

end Scene

namespace Cell

def get? (cell : Cell) (s : Scene) : Option Json :=
  match s.read cell.handle with
  | .ok (.component c) => c.held? cell.field
  | _ => none

def put? (cell : Cell) (s : Scene) (json : Json) : Option Scene :=
  match s.writable cell.handle with
  | .ok (.component c) => (c.hold? cell.field json).map fun d => s.put cell.handle (.component d)
  | _ => none

section Laws

variable {cell other : Cell} {s t u : Scene} {json : Json}

theorem put?_eq_some (h : cell.put? s json = some t) : ∃ c d, s.canWrite cell.handle = true ∧
    s.objects[cell.handle]? = some (.component c) ∧ c.hold? cell.field json = some d ∧
    t = s.put cell.handle (.component d) := by
  unfold put? at h
  split at h
  · next c hc =>
    obtain ⟨hwrite, hobject⟩ := Scene.writable_eq_ok.1 hc
    obtain ⟨d, hd, ht⟩ := Option.map_eq_some_iff.1 h
    exact ⟨c, d, hwrite, hobject, hd, ht.symm⟩
  · cases h

theorem get?_component {c : Component} (hc : s.read cell.handle = .ok (.component c)) :
    cell.get? s = c.held? cell.field := by
  unfold get?
  rw [hc]

theorem get?_eq_some (h : cell.get? s = some json) : ∃ c, s.canRead cell.handle = true ∧
    s.objects[cell.handle]? = some (.component c) ∧ c.held? cell.field = some json := by
  unfold get? at h
  split at h
  · next c hc => exact ⟨c, (Scene.read_eq_ok.1 hc).1, (Scene.read_eq_ok.1 hc).2, h⟩
  · cases h

theorem get?_put? (h : cell.put? s json = some t) : cell.get? t = some json := by
  obtain ⟨c, d, hwrite, hc, hd, rfl⟩ := put?_eq_some h
  obtain ⟨hlt, -⟩ := List.getElem?_eq_some_iff.1 hc
  have hput := Scene.objects_put s cell.handle cell.handle (.component d)
  rw [if_pos rfl, if_pos hlt] at hput
  have hread : (s.put cell.handle (.component d)).canRead cell.handle = true :=
    Scene.canRead_of_canWrite hwrite
  rw [get?_component (Scene.read_eq_ok.2 ⟨hread, hput⟩)]
  exact Component.held?_hold? hd

theorem get?_put?_of_ne (h : cell.put? s json = some t) (hne : other ≠ cell) :
    other.get? t = other.get? s := by
  obtain ⟨c, d, hwrite, hc, hd, rfl⟩ := put?_eq_some h
  obtain ⟨hlt, -⟩ := List.getElem?_eq_some_iff.1 hc
  have hput := Scene.objects_put s cell.handle other.handle (.component d)
  by_cases hhandle : cell.handle = other.handle
  · have hfield : other.field ≠ cell.field := fun heq => hne (by
      cases other
      cases cell
      cases hhandle
      cases heq
      rfl)
    have hread := Scene.canRead_of_canWrite hwrite
    have hread' : (s.put cell.handle (.component d)).canRead other.handle = true := hhandle ▸ hread
    rw [if_pos hhandle, if_pos hlt] at hput
    rw [hhandle] at hread hc
    rw [get?_component (Scene.read_eq_ok.2 ⟨hread', hput⟩), get?_component (Scene.read_eq_ok.2 ⟨hread, hc⟩)]
    exact Component.held?_hold?_of_ne hd hfield
  · rw [if_neg hhandle] at hput
    unfold get? Scene.read Scene.readable?
    rw [hput]
    rfl

-- What is put back where it stands changes nothing.
theorem put?_self (hs : s.FieldsSorted) (hget : cell.get? s = some json) (h : cell.put? s json = some t) :
    t = s := by
  obtain ⟨c, d, hwrite, hc, hd, rfl⟩ := put?_eq_some h
  obtain ⟨e, -, he, hheld⟩ := get?_eq_some hget
  obtain rfl : c = e := Object.component.inj (Option.some.inj (hc.symm.trans he))
  obtain ⟨hlt, hget⟩ := List.getElem?_eq_some_iff.1 hc
  rw [Component.hold?_self (hs c (List.mem_of_getElem? hc)) hheld hd]
  unfold Scene.put
  rw [← hget, List.set_getElem_self]

theorem put?_put? {value : Json} (h : cell.put? s json = some t) (h' : cell.put? t value = some u) :
    cell.put? s value = some u := by
  obtain ⟨c, d, hwrite, hc, hd, rfl⟩ := put?_eq_some h
  obtain ⟨d', e, -, hd', he, rfl⟩ := put?_eq_some h'
  obtain ⟨hlt, -⟩ := List.getElem?_eq_some_iff.1 hc
  rw [Scene.objects_put, if_pos rfl, if_pos hlt] at hd'
  cases hd'
  rw [Component.hold?_hold? hd] at he
  unfold put?
  rw [Scene.writable_eq_ok.2 ⟨hwrite, hc⟩]
  dsimp only
  rw [he, Option.map_some]
  unfold Scene.put
  dsimp only
  rw [List.set_set]

theorem isComponent_put? (h : cell.put? s json = some t) {handle : Handle} (hs : s.IsComponent handle) :
    t.IsComponent handle := by
  obtain ⟨c, d, -, hc, -, rfl⟩ := put?_eq_some h
  obtain ⟨hlt, -⟩ := List.getElem?_eq_some_iff.1 hc
  unfold Scene.IsComponent
  rw [Scene.objects_put]
  split
  · exact ⟨d, rfl⟩
  · exact hs

theorem fieldsSorted_put? (hs : s.FieldsSorted) (h : cell.put? s json = some t) : t.FieldsSorted := by
  obtain ⟨c, d, -, hc, hd, rfl⟩ := put?_eq_some h
  intro e he
  rcases List.mem_or_eq_of_mem_set he with he | he
  · exact hs e he
  · cases he
    exact Component.sorted_hold? (hs c (List.mem_of_getElem? hc)) hd

end Laws

end Cell

end SceneLink
