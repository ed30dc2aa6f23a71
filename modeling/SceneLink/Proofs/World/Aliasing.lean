import SceneLink.Proofs.Scene.Cell
import SceneLink.Proofs.World.Slot

namespace SceneLink

namespace Cell

-- What a step that is taken as it stands addresses in a component.
def ofStep (h : Handle) (step : Step) : Cell :=
  ⟨h, if step.kind = .member ∧ step.value = "enabled" then none else some step.value⟩

theorem ofStep_map {step : Step} (hmap : step.kind = .map) (h : Handle) :
    ofStep h step = ⟨h, some step.value⟩ := by
  unfold ofStep
  rw [if_neg fun hboth => by rw [hmap] at hboth; cases hboth.1]

end Cell

-- The object where a path stands, if it does not stand at data.
def Node.handle? : Node → Option Handle
  | .object h => some h
  | .value _ => none

namespace World

-- A step through plain data or to a registered object that is taken as it stands and has to succeed.
structure IsWired (step : Step) : Prop where
  kind : holdsData step.kind = true ∨ step.kind = .object
  verbatim : step.excited = false
  strict : step.conditional = false

-- A component, or data in the order of its names.
def Standing (w : World) : Node → Prop
  | .object h => w.scene.IsComponent h
  | .value json => json.Sorted

-- A world where paths go through components and data alone.
structure OfComponents (w : World) (root : Node) : Prop where
  start : w.Standing root
  registered : ∀ id h, w.registry.get? id = some h → w.Standing (.object h)
  fields : ∀ c, Object.component c ∈ w.scene.objects → (Json.obj c.fields).Sorted

-- The cells that a path goes through, from the object where it starts or from data.
def cells (r : Registry) : Option Handle → List Step → List Cell
  | _, [] => []
  | place, step :: steps =>
    if step.kind = .object then cells r (r.get? step.value) steps
    else match place with
      | some h => Cell.ofStep h step :: cells r none steps
      | none => cells r none steps

-- The last cell of a path, which is the one that is written, has been copied on the way to it.
def Restores : List Cell → Prop
  | [] => False
  | cell :: rest => rest.getLast? = some cell ∨ Restores rest

section Steps

variable {w : World} {root : Node} {step : Step} {h : Handle} {json : Json} {s t : Scene}

theorem IsWired.plain (hstep : IsWired step) (hkind : step.kind ≠ .object) : IsPlainStep step :=
  ⟨hstep.kind.resolve_right hkind, hstep.verbatim, hstep.strict⟩

theorem IsWired.kind_ne_method (hstep : IsWired step) : step.kind ≠ .method := by
  intro hmethod
  rcases hstep.kind with hkind | hkind <;> rw [hmethod] at hkind <;> cases hkind

theorem stepFrom_wire (eval : Evaluator) (current : Node) (hverbatim : step.excited = false)
    (hkind : step.kind = .object) : w.stepFrom eval root current step =
      match w.registry.get? step.value with
      | some h => .ok (.object h)
      | none => .error (.unknownObject step.value) := by
  unfold stepFrom stepKey
  rw [hkind, hverbatim]
  rfl

def part (step : Step) (object : Object) : Except AccessError Node :=
  match step.kind with
  | .member => match object.member? step.value with
    | some json => .ok (.value json)
    | none => .error (.noSuchMember step.value object.typeName)
  | .map => object.key step.value
  | .index => do object.item (← readIndex step.value)
  | kind => .error (.notAssignable kind.name)

theorem component_member? (c : Component) (hmember : step.kind = .member) :
    c.member? step.value = c.held? (Cell.ofStep h step).field := by
  unfold Component.member? Cell.ofStep
  by_cases hname : step.value = "enabled"
  · rw [if_pos hname, if_pos ⟨hmember, hname⟩]
    rfl
  · rw [if_neg hname, if_neg fun hboth => hname hboth.2]
    rfl

theorem stepFrom_object (eval : Evaluator) (hstep : IsPlainStep step) {child : Node} :
    w.stepFrom eval root (.object h) step = .ok child ↔
      ∃ object, w.scene.read h = .ok object ∧ part step object = .ok child := by
  have hkey := stepKey_plain w eval root hstep
  have hdata := hstep.data
  unfold stepFrom part
  rw [hkey]
  cases hkind : step.kind with
  | member =>
      change w.memberOf (.object h) step.value = _ ↔ _
      unfold memberOf
      dsimp only
      cases w.scene.read h with
      | error e => simp [bind, Except.bind]
      | ok object =>
          cases hmember : object.member? step.value <;>
            simp [bind, Except.bind, pure, Except.pure, throw, throwThe, MonadExceptOf.throw, hmember]
  | map =>
      change w.keyedIn (.object h) step.value = _ ↔ _
      unfold keyedIn
      dsimp only
      cases w.scene.read h with
      | error e => simp [bind, Except.bind]
      | ok object => simp [bind, Except.bind]
  | index =>
      change (readIndex step.value >>= w.itemOf (.object h)) = _ ↔ _
      unfold itemOf
      dsimp only
      cases readIndex step.value with
      | error e => simp [bind, Except.bind]
      | ok index => cases w.scene.read h <;> simp [bind, Except.bind]
  | _ =>
      rw [hkind] at hdata
      cases hdata

theorem part_component (hstep : IsPlainStep step) (h : Handle) {c : Component} {child : Node} :
    part step (.component c) = .ok child ↔
      step.kind ≠ .index ∧ ∃ json, c.held? (Cell.ofStep h step).field = some json ∧ child = .value json := by
  have hdata := hstep.data
  unfold part
  cases hkind : step.kind with
  | member =>
      rw [← component_member? c hkind]
      dsimp only [Object.member?]
      cases c.member? step.value <;> simp [eq_comm]
  | map =>
      rw [Cell.ofStep_map hkind]
      dsimp only [Object.key, Component.held?]
      cases c.fields.get? step.value <;> simp [eq_comm]
  | index => cases readIndex step.value <;> simp [bind, Except.bind, Object.item]
  | _ =>
      rw [hkind] at hdata
      cases hdata

theorem held_of_stepFrom {eval : Evaluator} (hstep : IsPlainStep step) (hcomponent : w.scene.IsComponent h)
    {child : Node} (hchild : w.stepFrom eval root (.object h) step = .ok child) :
    step.kind ≠ .index ∧ ∃ json, (Cell.ofStep h step).get? w.scene = some json ∧ child = .value json := by
  obtain ⟨object, hread, hpart⟩ := (stepFrom_object eval hstep).1 hchild
  obtain ⟨c, hc⟩ := hcomponent
  cases hc.symm.trans (Scene.read_eq_ok.1 hread).2
  rw [Cell.get?_component hread]
  exact (part_component hstep h).1 hpart

theorem stepFrom_of_held (eval : Evaluator) (hstep : IsPlainStep step) (hkind : step.kind ≠ .index)
    (hheld : (Cell.ofStep h step).get? w.scene = some json) :
    w.stepFrom eval root (.object h) step = .ok (.value json) := by
  obtain ⟨c, hread, hc, hfield⟩ := Cell.get?_eq_some hheld
  exact (stepFrom_object eval hstep).2
    ⟨_, Scene.read_eq_ok.2 ⟨hread, hc⟩, (part_component hstep h).2 ⟨hkind, json, hfield, rfl⟩⟩

theorem hold?_of_setMember {found : Node → String} {c d : Component} (hmember : step.kind = .member)
    (hset : c.setMember found step.value (.value json) = .ok d) :
    c.hold? (Cell.ofStep h step).field json = some d := by
  unfold Component.setMember at hset
  unfold Cell.ofStep
  by_cases hname : step.value = "enabled"
  · rw [if_pos hname] at hset
    rw [if_pos ⟨hmember, hname⟩]
    cases json with
    | bool b =>
        cases hset
        rfl
    | _ => cases hset
  · rw [if_neg hname] at hset
    rw [if_neg fun hboth => hname hboth.2]
    split at hset
    · cases hset
      rfl
    · cases hset

theorem put?_of_modify {cell : Cell} {change : (Node → String) → Object → Except AccessError Object}
    (hcomponent : s.IsComponent cell.handle)
    (hchange : ∀ c object found, change found (.component c) = .ok object →
      ∃ d, object = .component d ∧ c.hold? cell.field json = some d)
    (hmodify : s.modify cell.handle change = .ok t) : cell.put? s json = some t := by
  obtain ⟨object, changed, hwrite, hobject, hchanged, rfl⟩ := Scene.modify_eq_ok hmodify
  obtain ⟨c, hc⟩ := hcomponent
  cases hc.symm.trans hobject
  obtain ⟨d, rfl, hd⟩ := hchange _ _ _ hchanged
  unfold Cell.put?
  rw [Scene.writable_eq_ok.2 ⟨hwrite, hc⟩]
  dsimp only
  rw [hd, Option.map_some]

theorem change_ok {f : Scene → Except AccessError Scene} {current node : Node}
    (h : (do Edit.change f; return current : Edit Node).run s = (.ok node, t)) :
    node = current ∧ f s = .ok t := by
  rw [Edit.bind_run, Edit.change_run] at h
  cases hf : f s with
  | error e =>
      rw [hf] at h
      cases h
  | ok u =>
      rw [hf] at h
      cases h
      exact ⟨rfl, rfl⟩

theorem put?_of_setAt {node : Node} (hstep : IsPlainStep step) (hcomponent : s.IsComponent h)
    (hset : (w.setAt root (.object h) step (.value json)).run s = (.ok node, t)) :
    node = .object h ∧ step.kind ≠ .index ∧ (Cell.ofStep h step).put? s json = some t := by
  have hkey : (w.reading fun w => w.stepKey w.evaluate root step).run s = (.ok step.value, s) :=
    Prod.ext (stepKey_plain { w with scene := s } _ root hstep) rfl
  have hdata := hstep.data
  unfold setAt at hset
  dsimp only at hset
  cases hkind : step.kind with
  | member =>
      rw [hkind] at hset
      dsimp only at hset
      rw [Edit.bind_run, hkey] at hset
      obtain ⟨hnode, hmodify⟩ := change_ok hset
      refine ⟨hnode, StepKind.noConfusion, put?_of_modify hcomponent (fun c object found hchange => ?_) hmodify⟩
      cases hput : c.setMember found step.value (.value json) with
      | error e =>
          change (c.setMember found step.value (.value json)).map Object.component = _ at hchange
          rw [hput] at hchange
          cases hchange
      | ok d =>
          change (c.setMember found step.value (.value json)).map Object.component = _ at hchange
          rw [hput] at hchange
          cases hchange
          exact ⟨d, rfl, hold?_of_setMember hkind hput⟩
  | map =>
      rw [hkind] at hset
      dsimp only at hset
      rw [Edit.bind_run, hkey] at hset
      obtain ⟨hnode, hmodify⟩ := change_ok hset
      refine ⟨hnode, StepKind.noConfusion, put?_of_modify hcomponent (fun c object found hchange => ?_) hmodify⟩
      cases hchange
      rw [Cell.ofStep_map hkind]
      exact ⟨_, rfl, rfl⟩
  | index =>
      rw [hkind] at hset
      dsimp only at hset
      rw [Edit.bind_run, hkey] at hset
      dsimp only at hset
      have hindex : (Edit.attempt (readIndex step.value)).run s = (readIndex step.value, s) := rfl
      rw [Edit.bind_run, hindex] at hset
      cases hread : readIndex step.value with
      | error e =>
          rw [hread] at hset
          cases hset
      | ok index =>
          rw [hread] at hset
          obtain ⟨object, changed, -, -, hchanged, -⟩ := Scene.modify_eq_ok (change_ok hset).2
          cases hchanged
  | _ =>
      rw [hkind] at hdata
      cases hdata

end Steps

section Paths

variable {w : World} {root current node : Node} {value json : Json} {step : Step} {steps : List Step}
  {r : Registry} {h : Handle} {t : Scene}

theorem cells_wire (place : Option Handle) (hkind : step.kind = .object) :
    cells r place (step :: steps) = cells r (r.get? step.value) steps := if_pos hkind

theorem cells_copy (hkind : step.kind ≠ .object) : cells r none (step :: steps) = cells r none steps :=
  if_neg hkind

theorem cells_component (hkind : step.kind ≠ .object) :
    cells r (some h) (step :: steps) = Cell.ofStep h step :: cells r none steps := if_neg hkind

theorem not_restores_singleton (cell : Cell) : ¬Restores [cell] := by
  rintro (hlast | hrest)
  · cases hlast
  · exact hrest

theorem walk_cons_of_ok {eval : Evaluator} {child : Node}
    (hstep : w.stepFrom eval root current step = .ok child) :
    w.walk eval root (step :: steps) current = w.walk eval root steps child := by
  rw [walk, hstep]

-- What a write that succeeds leaves below a node that a path has reached.
structure Outcome (w : World) (root : Node) (value : Json) (steps : List Step) (current node : Node)
    (t : Scene) (cells : List Cell) : Prop where
  -- A path that goes through no component stays in the data where it starts.
  inside : cells = [] → current.isData = true ∧ t = w.scene ∧ ∀ step ∈ steps, IsPlainStep step
  -- Data that a path leaves is put back as it was.
  same : cells ≠ [] → node = current
  restored : Restores cells → t = w.scene
  written : ¬Restores cells → ∀ cell, cells.getLast? = some cell → ∃ json, cell.put? w.scene json = some t
  read : ¬Restores cells → ∀ eval start,
    ({ w with scene := t } : World).walk eval start steps node = .ok (.value value)

theorem Outcome.isComponent {cells : List Cell} (h : Outcome w root value steps current node t cells)
    {handle : Handle} (hcomponent : w.scene.IsComponent handle) : t.IsComponent handle := by
  by_cases hrestores : Restores cells
  · rwa [h.restored hrestores]
  · cases hlast : cells.getLast? with
    | none => rwa [(h.inside (List.getLast?_eq_none_iff.1 hlast)).2.1]
    | some cell =>
        obtain ⟨json, hput⟩ := h.written hrestores cell hlast
        exact Cell.isComponent_put? hput hcomponent

theorem outcome_last (hstep : IsWired step) (hcurrent : w.Standing current)
    (h : (w.setAt root current step (.value value)).run w.scene = (.ok node, t)) :
    Outcome w root value [step] current node t (cells w.registry current.handle? [step]) := by
  have hkind : step.kind ≠ .object := by
    intro hkind
    unfold setAt at h
    dsimp only at h
    rw [hkind] at h
    cases h
  have hplain := hstep.plain hkind
  cases current with
  | value json =>
      rw [setAt_plain w root hplain] at h
      cases hput : (Slot.ofStep step).put json value with
      | error e =>
          rw [hput] at h
          cases h
      | ok whole =>
          rw [hput] at h
          cases h
          have hcells : cells w.registry (Node.value json).handle? [step] = [] := cells_copy hkind
          rw [hcells]
          exact {
            inside := fun _ => ⟨rfl, rfl, List.forall_mem_singleton.2 hplain⟩
            same := fun hne => absurd rfl hne
            restored := False.elim
            written := fun _ _ hlast => nomatch hlast
            read := fun _ eval start => by
              rw [walk_plain _ eval start (List.forall_mem_singleton.2 hplain)]
              exact congrArg (Except.map Node.value) ((Slot.ofStep_lawful step).get_put hput) }
  | object handle =>
      obtain ⟨rfl, hindex, hput⟩ := put?_of_setAt hplain hcurrent h
      have hcells : cells w.registry (Node.object handle).handle? [step] = [Cell.ofStep handle step] :=
        cells_component hkind
      rw [hcells]
      exact {
        inside := fun hnil => nomatch hnil
        same := fun _ => rfl
        restored := fun hrestores => absurd hrestores (not_restores_singleton _)
        written := fun _ cell hlast => by
          cases hlast
          exact ⟨value, hput⟩
        read := fun _ eval _ => walk_cons_of_ok (stepFrom_of_held eval hplain hindex (Cell.get?_put? hput)) }

-- A path goes on at a registered object wherever it stands, and needs nothing to be put back.
theorem outcome_wire (hstep : IsWired step) (hkind : step.kind = .object) {handle : Handle}
    (hregistered : w.registry.get? step.value = some handle)
    (hrest : Outcome w root value steps (.object handle) node t (cells w.registry (some handle) steps)) :
    Outcome w root value (step :: steps) current current t
      (cells w.registry current.handle? (step :: steps)) := by
  have hcells : cells w.registry (some handle) steps ≠ [] := fun hnil => nomatch (hrest.inside hnil).1
  cases hrest.same hcells
  rw [cells_wire _ hkind, hregistered]
  exact {
    inside := fun hnil => absurd hnil hcells
    same := fun _ => rfl
    restored := hrest.restored
    written := hrest.written
    read := fun hnot eval start => by
      have hleads : ({ w with scene := t } : World).stepFrom eval start current step = .ok (.object handle) := by
        rw [stepFrom_wire eval current hstep.verbatim hkind]
        dsimp only
        rw [hregistered]
      rw [walk_cons_of_ok hleads]
      exact hrest.read hnot eval start }

-- A copy within a copy is changed with it, or put back as it was.
theorem outcome_copy (hplain : IsPlainStep step) (hkind : step.kind ≠ .object) {part changed : Json}
    (hjson : json.Sorted)
    (hpart : (Slot.ofStep step).get json = .ok part)
    (hrest : Outcome w root value steps (.value part) (.value changed) t (cells w.registry none steps))
    {whole : Json} (hput : (Slot.ofStep step).put json changed = .ok whole) :
    Outcome w root value (step :: steps) (.value json) (.value whole) t
      (cells w.registry (Node.value json).handle? (step :: steps)) := by
  have hcells : cells w.registry (Node.value json).handle? (step :: steps) = cells w.registry none steps :=
    cells_copy hkind
  rw [hcells]
  exact {
    inside := fun hnil =>
      ⟨rfl, (hrest.inside hnil).2.1, List.forall_mem_cons.2 ⟨hplain, (hrest.inside hnil).2.2⟩⟩
    same := fun hne => by
      cases hrest.same hne
      rw [(Slot.ofStep_lawful step).put_get hjson hpart] at hput
      cases hput
      rfl
    restored := hrest.restored
    written := hrest.written
    read := fun hnot eval start => by
      have hleads :
          ({ w with scene := t } : World).stepFrom eval start (.value whole) step = .ok (.value changed) := by
        rw [stepFrom_plain _ eval start hplain, (Slot.ofStep_lawful step).get_put hput]
        rfl
      rw [walk_cons_of_ok hleads]
      exact hrest.read hnot eval start }

-- A copy of a field is put back into it. So the field is as it was, if the path has left the copy, and
-- nothing is left of a write below it to the same field.
theorem outcome_component (hplain : IsPlainStep step) (hkind : step.kind ≠ .object) (hindex : step.kind ≠ .index)
    (hfields : w.scene.FieldsSorted) {part changed : Json} {u : Scene}
    (hheld : (Cell.ofStep h step).get? w.scene = some part)
    (hrest : Outcome w root value steps (.value part) (.value changed) u (cells w.registry none steps))
    (hput : (Cell.ofStep h step).put? u changed = some t) :
    Outcome w root value (step :: steps) (.object h) (.object h) t
      (cells w.registry (Node.object h).handle? (step :: steps)) := by
  have hcells : cells w.registry (Node.object h).handle? (step :: steps) =
      Cell.ofStep h step :: cells w.registry none steps := cells_component hkind
  rw [hcells]
  generalize hcs : cells w.registry none steps = cs at hrest
  cases cs with
  | nil =>
      obtain ⟨-, rfl, hsteps⟩ := hrest.inside rfl
      exact {
        inside := fun hnil => nomatch hnil
        same := fun _ => rfl
        restored := fun hrestores => absurd hrestores (not_restores_singleton _)
        written := fun _ cell hlast => by
          cases hlast
          exact ⟨changed, hput⟩
        read := fun _ eval start => by
          rw [walk_cons_of_ok (stepFrom_of_held eval hplain hindex (Cell.get?_put? hput)),
            walk_plain _ eval start hsteps, ← walk_plain w eval start hsteps]
          exact hrest.read id eval start }
  | cons first others =>
      have hne : first :: others ≠ [] := List.cons_ne_nil _ _
      cases hrest.same hne
      have hback : (Cell.ofStep h step).put? w.scene part = some t → t = w.scene :=
        Cell.put?_self hfields hheld
      have hother : ¬Restores (Cell.ofStep h step :: first :: others) → t = u := by
        intro hnot
        obtain ⟨hlast, hnot⟩ := not_or.1 hnot
        rw [List.getLast?_eq_some_getLast hne] at hlast
        obtain ⟨inner, hinner⟩ := hrest.written hnot _ (List.getLast?_eq_some_getLast hne)
        refine Cell.put?_self (Cell.fieldsSorted_put? hfields hinner) ?_ hput
        rw [Cell.get?_put?_of_ne hinner fun heq => hlast (congrArg some heq.symm), hheld]
      exact {
        inside := fun hnil => nomatch hnil
        same := fun _ => rfl
        restored := by
          rintro (hlast | hrestores)
          · by_cases hrestores : Restores (first :: others)
            · rw [hrest.restored hrestores] at hput
              exact hback hput
            · obtain ⟨inner, hinner⟩ := hrest.written hrestores _ hlast
              exact hback (Cell.put?_put? hinner hput)
          · rw [hrest.restored hrestores] at hput
            exact hback hput
        written := fun hnot cell hlast => by
          rw [hother hnot]
          exact hrest.written (not_or.1 hnot).2 cell hlast
        read := fun hnot eval start => by
          rw [hother hnot] at hput ⊢
          rw [walk_cons_of_ok (stepFrom_of_held eval hplain hindex (Cell.get?_put? hput))]
          exact hrest.read (not_or.1 hnot).2 eval start }

theorem sorted_of_held (hfields : ∀ c, Object.component c ∈ w.scene.objects → (Json.obj c.fields).Sorted)
    {cell : Cell} (hheld : cell.get? w.scene = some json) : json.Sorted := by
  obtain ⟨c, -, hc, hfield⟩ := Cell.get?_eq_some hheld
  unfold Component.held? at hfield
  split at hfield
  · cases hfield
    trivial
  · exact Json.sorted_of_mem_fields (hfields c (List.mem_of_getElem? hc)).2 (Dict.mem_of_get? hfield)

theorem stepFrom_wire_ok {eval : Evaluator} {child : Node} (hverbatim : step.excited = false)
    (hkind : step.kind = .object) (hchild : w.stepFrom eval root current step = .ok child) :
    ∃ h, w.registry.get? step.value = some h ∧ child = .object h := by
  rw [stepFrom_wire eval current hverbatim hkind] at hchild
  split at hchild
  · next h hregistered =>
    cases hchild
    exact ⟨h, hregistered, rfl⟩
  · cases hchild

theorem outcome_of_setSteps (hw : w.OfComponents root) (hsteps : ∀ step ∈ steps, IsWired step)
    (hcurrent : w.Standing current)
    (h : (w.setSteps root (.value value) steps current).run w.scene = (.ok (some node), t)) :
    Outcome w root value steps current node t (cells w.registry current.handle? steps) := by
  induction steps generalizing current node t with
  | nil => cases h
  | cons step rest ih =>
      obtain ⟨hstep, hrest⟩ := List.forall_mem_cons.1 hsteps
      cases rest with
      | nil => exact outcome_last hstep hcurrent (skippable_some h)
      | cons next rest =>
          have hnoMethod : NoMethod (next :: rest) := fun step hmem => (hrest step hmem).kind_ne_method
          obtain ⟨child, hchild, hdone⟩ := setSteps_ok h
          by_cases hkind : step.kind = .object
          · obtain ⟨handle, hregistered, rfl⟩ := stepFrom_wire_ok hstep.verbatim hkind hchild
            rcases hdone with ⟨rfl, other, hrun⟩ | ⟨copy, u, hrun, -⟩
            · exact outcome_wire hstep hkind hregistered (ih hrest (hw.registered _ _ hregistered) hrun)
            · cases setSteps_kind hnoMethod hrun
          · have hplain := hstep.plain hkind
            cases current with
            | value json =>
                rw [stepFrom_plain w _ root hplain] at hchild
                cases hpart : (Slot.ofStep step).get json with
                | error e =>
                    rw [hpart] at hchild
                    cases hchild
                | ok part =>
                    rw [hpart] at hchild
                    cases hchild
                    rcases hdone with ⟨-, other, hrun⟩ | ⟨changed, u, hrun, hset⟩
                    · cases setSteps_kind hnoMethod hrun
                    · rw [setAt_plain w root hplain] at hset
                      cases hput : (Slot.ofStep step).put json changed with
                      | error e =>
                          rw [hput] at hset
                          cases hset
                      | ok whole =>
                          rw [hput] at hset
                          cases hset
                          have hsorted : w.Standing (.value part) := Slot.sorted_of_ofStep hcurrent hpart
                          exact outcome_copy hplain hkind hcurrent hpart (ih hrest hsorted hrun) hput
            | object handle =>
                obtain ⟨hindex, part, hheld, rfl⟩ := held_of_stepFrom hplain hcurrent hchild
                rcases hdone with ⟨-, other, hrun⟩ | ⟨changed, u, hrun, hset⟩
                · cases setSteps_kind hnoMethod hrun
                · have hsorted : w.Standing (.value part) := sorted_of_held hw.fields hheld
                  have hbelow := ih hrest hsorted hrun
                  obtain ⟨rfl, -, hput⟩ := put?_of_setAt hplain (hbelow.isComponent hcurrent) hset
                  exact outcome_component hplain hkind hindex (fun c hc => (hw.fields c hc).1) hheld hbelow hput

-- The cells that a path goes through from a root.
def cellsFrom (w : World) (root : Node) (path : Path) : List Cell := cells w.registry root.handle? path.steps

theorem some_of_skippable {p : Edit Node} {result : Option Node} {s : Scene} (hstrict : step.conditional = false)
    (h : (skippable step p).run s = (.ok result, t)) : ∃ node, result = some node := by
  rw [skippable_strict hstrict] at h
  rcases hrun : p.run s with ⟨outcome, u⟩
  rw [hrun] at h
  cases outcome with
  | ok node =>
      cases h
      exact ⟨node, rfl⟩
  | error e => cases h

theorem some_of_setSteps {start : Node} {result : Option Node} {s : Scene} (hne : steps ≠ [])
    (hstrict : ∀ step ∈ steps, step.conditional = false)
    (h : (w.setSteps root start steps current).run s = (.ok result, t)) : ∃ node, result = some node := by
  induction steps generalizing current result t with
  | nil => exact absurd rfl hne
  | cons step rest ih =>
      obtain ⟨hstep, hrest⟩ := List.forall_mem_cons.1 hstrict
      cases rest with
      | nil => exact some_of_skippable hstep h
      | cons next rest =>
          rw [setSteps_cons, hstep] at h
          split at h
          · cases h
          · split at h
            · cases h
            · next hrun =>
              obtain ⟨node, hnode⟩ := ih (List.cons_ne_nil _ _) hrest hrun
              cases hnode
            · cases h
              exact ⟨current, rfl⟩
            · exact some_of_skippable hstep h

theorem outcome_of_set (hw : w.OfComponents root) {path : Path} (hpath : ∀ step ∈ path.steps, IsWired step)
    (hok : (w.set root path (.value value)).result = .ok ()) :
    ∃ t, (w.set root path (.value value)).world = { w with scene := t } ∧
      Outcome w root value path.steps root (w.set root path (.value value)).root t (w.cellsFrom root path) := by
  by_cases hnil : path.steps = []
  · rw [set_nil hnil] at hok
    cases hok
  · rw [set_eq hnil] at hok ⊢
    rcases hrun : (w.setSteps root (.value value) path.steps root).run w.scene with ⟨result, t⟩
    rw [hrun] at hok
    cases result with
    | error e => cases hok
    | ok result =>
        obtain ⟨node, rfl⟩ := some_of_setSteps hnil (fun step hstep => (hpath step hstep).strict) hrun
        exact ⟨t, rfl, outcome_of_setSteps hw hpath hw.start hrun⟩

-- What a write through components leaves depends on the cells that its path goes through. If the last of
-- them, the one that is written, comes before as well, then it is put back as it was, and the write has
-- done nothing at all, although it succeeds. Otherwise the value is read back.
theorem written_through (w : World) {root : Node} (hw : w.OfComponents root) {path : Path}
    (hpath : ∀ step ∈ path.steps, IsWired step) (v : Json) :
    let written := w.set root path (.value v)
    written.result = .ok () →
      (Restores (w.cellsFrom root path) → written.world = w ∧ written.root = root) ∧
      (¬Restores (w.cellsFrom root path) → written.world.get written.root path = .ok (.value v)) := by
  intro written hok
  obtain ⟨t, hworld, houtcome⟩ := outcome_of_set hw hpath hok
  refine ⟨fun hrestores => ⟨?_, ?_⟩, fun hnot => ?_⟩
  · rw [hworld, houtcome.restored hrestores]
  · exact houtcome.same fun hnil => by rw [hnil] at hrestores; exact hrestores
  · unfold get
    rw [hworld]
    exact houtcome.read hnot _ _

end Paths

-- A component that can be reached from its own fields, for a path can name it anywhere.
section Loops

def lamp : World where
  scene := { objects := [.component
    { typeName := "Lamp", fields := [("color", .str "red"), ("mode", .str "on")] }] }
  registry := { entries := [("L", { handle := 0 })], names := [(0, "L")] }

theorem lamp_ofComponents : lamp.OfComponents (.object 0) where
  start := ⟨_, rfl⟩
  registered id h hget := by
    have hentry : (id, h) ∈ [("L", 0)] := by
      obtain ⟨entry, hentry, rfl⟩ := Option.map_eq_some_iff.1 hget
      cases List.mem_singleton.1 (Dict.mem_of_get? hentry)
      exact List.mem_singleton.2 rfl
    cases List.mem_singleton.1 hentry
    exact ⟨_, rfl⟩
  fields c hc := by
    cases List.mem_singleton.1 hc
    exact ⟨by decide, trivial, trivial, trivial⟩

def loop (first last : String) : Path where
  text := first ++ "/object:L/" ++ last
  steps := [.ofMember first, { kind := .object, value := "L" }, .ofMember last]

theorem loop_isWired (first last : String) : ∀ step ∈ (loop first last).steps, IsWired step := by
  intro step hstep
  simp only [loop, List.mem_cons, List.not_mem_nil, or_false] at hstep
  rcases hstep with rfl | rfl | rfl
  · exact ⟨.inl rfl, rfl, rfl⟩
  · exact ⟨.inr rfl, rfl, rfl⟩
  · exact ⟨.inl rfl, rfl, rfl⟩

theorem loop_restores (first last : String) : Restores (lamp.cellsFrom (.object 0) (loop first last)) ↔
    Cell.ofStep 0 (.ofMember last) = Cell.ofStep 0 (.ofMember first) := by
  change some (Cell.ofStep 0 (.ofMember last)) = some (Cell.ofStep 0 (.ofMember first)) ∨
    (none = some (Cell.ofStep 0 (.ofMember last)) ∨ False) ↔ _
  simp

theorem written_through_lamp :
    let written := lamp.set (.object 0) (loop "mode" "color") (.value (.str "blue"))
    let undone := lamp.set (.object 0) (loop "color" "color") (.value (.str "blue"))
    lamp.OfComponents (.object 0) ∧ (∀ first last, ∀ step ∈ (loop first last).steps, IsWired step) ∧
    written.result = .ok () ∧ undone.result = .ok () ∧ undone.world = lamp ∧ undone.root = .object 0 ∧
    written.world.get written.root (loop "mode" "color") = .ok (.value (.str "blue")) := by
  intro written undone
  have hwritten : written.result = .ok () := by rfl
  have hundone : undone.result = .ok () := by rfl
  have hrestores : Restores (lamp.cellsFrom (.object 0) (loop "color" "color")) :=
    (loop_restores _ _).2 rfl
  have hnot : ¬Restores (lamp.cellsFrom (.object 0) (loop "mode" "color")) :=
    mt (loop_restores _ _).1 (by decide)
  obtain ⟨hworld, hroot⟩ := (written_through lamp lamp_ofComponents (loop_isWired _ _) _ hundone).1 hrestores
  exact ⟨lamp_ofComponents, loop_isWired, hwritten, hundone, hworld, hroot,
    (written_through lamp lamp_ofComponents (loop_isWired _ _) _ hwritten).2 hnot⟩

theorem not_read_after_written : ∃ (w : World) (root : Node) (path : Path) (v : Json),
    w.OfComponents root ∧ (∀ step ∈ path.steps, IsWired step) ∧ (w.set root path (.value v)).result = .ok () ∧
    (w.set root path (.value v)).world.get (w.set root path (.value v)).root path ≠ .ok (.value v) := by
  refine ⟨lamp, .object 0, loop "color" "color", .str "blue", lamp_ofComponents, loop_isWired _ _, by rfl, ?_⟩
  have hget : (lamp.set (.object 0) (loop "color" "color") (.value (.str "blue"))).world.get
    (lamp.set (.object 0) (loop "color" "color") (.value (.str "blue"))).root (loop "color" "color") =
      .ok (.value (.str "red")) := by rfl
  rw [hget]
  simp

end Loops

end World

end SceneLink
