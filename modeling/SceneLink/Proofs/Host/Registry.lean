import SceneLink.Proofs.Host.Delivery
import SceneLink.Proofs.Host.Steady
import SceneLink.Proofs.Host.Trail
import SceneLink.Proofs.World.Calls

namespace SceneLink

namespace Host

open Procedure

section Registry

variable {P : Registry → Prop}

def Holds (P : Registry → Prop) (h : Host) : Prop := P h.world.registry

section Changes

-- A host keeps what every change of a registry keeps.
variable (hP : ∀ r c, P r → P (Registry.apply r c))

include hP

theorem holds_steady : Steady (Holds P) where
  sending _ _ hh := hh
  flushing _ hh := hh
  collecting _ hh := hh
  globals _ _ hh := hh
  animator _ _ hh := hh
  registry _ change hh := hP _ change hh
  delivery _ _ _ _ _ hh := hh
  assignment h object path expr hh := by
    obtain ⟨scene, hscene⟩ := h.world.assign_world (.object object) path expr
    rw [hscene]
    exact hh
  frame h dt hh := by
    unfold Holds
    rw [registry_advanced]
    exact hh

theorem place_holds (template : Template) : Keeps (Holds P) (place template) := by
  refine keeps_iff.2 fun h hh => ?_
  rcases place_value template h with ⟨e, he⟩ | ⟨object, scene, hplace, -, hfresh⟩
  · rw [he]
    exact hh
  · have hchanged := hP _ (.insert template.id object) hh
    rw [Registry.apply_insert_fresh hfresh] at hchanged
    rw [hplace]
    exact hchanged

theorem create_holds (template : Template) : Keeps (Holds P) (create template) := by
  refine (holds_steady hP).create_keeps (place_holds hP) (fun child parent stays => ?_) template
  refine keeps_iff.2 fun h hh => ?_
  obtain ⟨scene, hscene⟩ := attach_still child parent stays h
  rw [hscene]
  exact hh

theorem perform_holds {h : Host} (hh : h.Holds P) (deed : Deed) : (h.perform deed).Holds P := by
  have hsteady := holds_steady hP
  refine hsteady.perform_keeps (fun op _ => hsteady.apply_keeps fun _ => create_holds hP) ?_ hh
  rintro k scene resources catalog rfl hk
  exact hk

end Changes

-- Whatever a host does, its registry goes through changes of registries.
theorem registry_after (h : Host) (deeds : List Deed) :
    h.world.registry.Becomes (h.after deeds).world.registry :=
  List.foldlRecOn deeds perform (motive := Holds h.world.registry.Becomes) ⟨[], rfl⟩ fun _ hk deed _ =>
    perform_holds (fun _ c hr => hr.apply c) hk deed

end Registry

section Names

theorem truthful_after (settings : HostSettings) (catalog : Catalog) (transport : Transport) (deeds : List Deed) :
    ((Host.start settings catalog transport).value.after deeds).world.registry.Truthful := by
  obtain ⟨outbox, hstart, -⟩ := start_cases settings catalog transport
  obtain ⟨changes, hchanges⟩ := registry_after (Host.start settings catalog transport).value deeds
  rw [hchanges, hstart]
  exact Registry.run_truthful changes

-- After any changes of a registry, the name that an object is reported by is in use, and leads to it. So whatever
-- a host has done, the data of a node names no other object and none that is gone, and neither do the results of
-- a query.
theorem names_lead_back :
    (∀ (changes : List Registry.Change) (object : Handle) (id : String),
      (Registry.run changes).idOf? object = some id →
        (Registry.run changes).contains id = true ∧ (Registry.run changes).get? id = some object) ∧
    ∀ (settings : HostSettings) (catalog : Catalog) (transport : Transport) (deeds : List Deed),
      let w := ((Host.start settings catalog transport).value.after deeds).world;
      (∀ node, w.registry.Identifies (w.registry.toJson node) node) ∧
      ∀ root paths name json, (name, json) ∈ (w.query root paths).value →
        ∃ path node, (name, path) ∈ paths ∧ w.get root path = .ok node ∧ w.registry.Identifies json node := by
  refine ⟨fun changes object id hname => ?_, fun settings catalog transport deeds => ?_⟩
  · have hget := Registry.run_truthful changes object id hname
    exact ⟨Registry.contains_of_get? hget, hget⟩
  · have hnode := (truthful_after settings catalog transport deeds).identifies
    refine ⟨hnode, fun root paths name json hentry => ?_⟩
    obtain ⟨path, node, hpath, hget, rfl⟩ := World.mem_query.1 hentry
    exact ⟨path, node, hpath, hget, hnode node⟩

-- A refused duplicate and a second identifier, and an object that asks for itself.
def renamed : Registry := Registry.run [.insert "A" 0, .insert "A" 1, .insert "B" 0]

theorem names_lead_back_renamed :
    (renamed.idOf? 0 = some "B" ∧ renamed.contains "B" = true ∧ renamed.get? "B" = some 0) ∧
    ∃ path node, ("self", path) ∈ [("self", Path.here)] ∧
      inhabited.world.get (.object 0) path = .ok node ∧ inhabited.world.registry.Identifies (.str "c") node := by
  have hname : renamed.idOf? 0 = some "B" := rfl
  have hresults : (inhabited.world.query (.object 0) [("self", Path.here)]).value = [("self", .str "c")] := rfl
  refine ⟨⟨hname, names_lead_back.1 _ 0 "B" hname⟩, ?_⟩
  refine (names_lead_back.2 {} {} {} [.apply (Operation.create { id := "c" })]).2 _ _ "self" _ ?_
  exact List.mem_of_mem_head? (congrArg List.head? hresults)

end Names

end Host

end SceneLink
