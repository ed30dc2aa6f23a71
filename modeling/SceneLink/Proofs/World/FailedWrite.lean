import SceneLink.Proofs.Outcome
import SceneLink.Proofs.World.Edit

namespace SceneLink

def Node.isData : Node → Bool
  | .value _ => true
  | .object _ => false

namespace World

-- Whether a step leads to the same object wherever it stands.
def isJump : StepKind → Bool
  | .object | .resource => true
  | _ => false

section Slots

variable {w : World} {root current value : Node} {step : Step}

-- An edit of one slot of a node: it fails without a change, it makes none at all where the node is
-- data, and data stays data.
structure EditsSlot (current : Node) (p : Edit Node) : Prop where
  atomic : Edit.Atomic p
  looks : current.isData = true → Edit.Looks p
  kind : Edit.Yields (fun node => node.isData = current.isData) p

private theorem editsSlot_throw (e : AccessError) : EditsSlot current (throw e) :=
  ⟨(Edit.looks_throw e).atomic, fun _ => Edit.looks_throw e, Edit.yields_throw e⟩

private theorem editsSlot_object {h : Handle} (f : Scene → Except AccessError Scene) :
    EditsSlot (.object h) (do Edit.change f; return .object h) where
  atomic := Edit.change_atomic f _
  looks := fun hdata => nomatch hdata
  kind := Edit.Yields.bind (fun _ => by exact Edit.yields_pure rfl) _

private theorem editsSlot_copy {json : Json} (value : Node) (put : Json → Json) :
    EditsSlot (.value json) (do return .value (put (← Edit.toValue value))) where
  atomic := ((Edit.looks_toValue value).bind fun _ => Edit.looks_pure _).atomic
  looks := fun _ => (Edit.looks_toValue value).bind fun _ => Edit.looks_pure _
  kind := Edit.Yields.bind (fun _ => by exact Edit.yields_pure rfl) _

theorem EditsSlot.after {α : Type} {p : Edit α} {f : α → Edit Node} (hp : Edit.Looks p)
    (hf : ∀ a, EditsSlot current (f a)) : EditsSlot current (p >>= f) where
  atomic := hp.bind_atomic fun a => (hf a).atomic
  looks := fun hdata => hp.bind fun a => (hf a).looks hdata
  kind := Edit.Yields.bind (fun a => (hf a).kind) p

private theorem setMember_editsSlot (name : String) : EditsSlot current (setMember current name value) := by
  unfold setMember
  split
  · exact editsSlot_object _
  · split
    · exact editsSlot_copy value fun json => .obj (Dict.insert _ name json)
    · exact editsSlot_throw _
  · exact editsSlot_throw _

private theorem setItem_editsSlot (index : Nat) : EditsSlot current (setItem current index value) := by
  unfold setItem
  split
  · exact editsSlot_object _
  · split
    · exact editsSlot_copy value fun json => .arr (List.set _ index json)
    · exact editsSlot_throw _
  · exact editsSlot_throw _

private theorem setKey_editsSlot (key : String) : EditsSlot current (setKey current key value) := by
  unfold setKey
  split
  · exact editsSlot_object _
  · exact editsSlot_copy value fun json => .obj (Dict.insert _ key json)
  · exact editsSlot_throw _

theorem setAt_editsSlot (hmethod : step.kind ≠ .method) :
    EditsSlot current (w.setAt root current step value) := by
  have hkey : Edit.Looks (w.reading fun w => w.stepKey w.evaluate root step) := Edit.looks_reading _ _
  unfold setAt
  dsimp only
  split
  · exact .after hkey fun _ => setMember_editsSlot _
  · exact .after hkey fun _ => .after (Edit.looks_attempt _) fun _ => setItem_editsSlot _
  · exact .after hkey fun _ => setKey_editsSlot _
  · next hkind => exact (hmethod hkind).elim
  · exact editsSlot_throw _
  · exact editsSlot_throw _

end Slots

section Steps

variable {w : World} {root current value : Node} {step : Step}

theorem skippable_run {α : Type} (step : Step) (p : Edit α) (s : Scene) :
    (skippable step p).run s = match p.run s with
      | (.ok a, t) => (.ok (some a), t)
      | (.error e, t) => if step.conditional then (.ok none, t) else (.error e, t) := by
  unfold skippable
  rw [Edit.tryCatch_run, Edit.bind_run]
  rcases p.run s with ⟨result, t⟩
  cases result with
  | ok a => rfl
  | error e => cases step.conditional <;> rfl

theorem enter_looks (w : World) (root current : Node) (step : Step) :
    Edit.Looks (w.enter root current step) := by
  refine (Edit.looks_reading _ _).bind fun child => ?_
  cases child with
  | object h => exact Edit.looks_pure _
  | value json =>
      dsimp only
      split
      · exact Edit.looks_pure _
      · exact Edit.looks_throw _

theorem enter_spec {child : Node} {t : Scene}
    (h : (w.enter root current step).run w.scene = (.ok child, t)) :
    w.stepFrom w.evaluate root current step = .ok child ∧ (child.isData = true → holdsData step.kind = true) := by
  unfold enter at h
  have hreading : (w.reading fun w => w.stepFrom w.evaluate root current step).run w.scene =
      (w.stepFrom w.evaluate root current step, w.scene) := rfl
  rw [Edit.bind_run, hreading] at h
  cases hstep : w.stepFrom w.evaluate root current step with
  | error e =>
      rw [hstep] at h
      cases h
  | ok node =>
      rw [hstep] at h
      cases node with
      | object handle =>
          cases h
          exact ⟨rfl, fun hdata => nomatch hdata⟩
      | value json =>
          dsimp only at h
          split at h
          · next hdata =>
            cases h
            exact ⟨rfl, fun _ => hdata⟩
          · cases h

-- Data holds no objects, so a step from it that leads to an object leads there from anywhere.
theorem jump_of_stepFrom {json : Json} {h : Handle} {eval : Evaluator}
    (hstep : w.stepFrom eval root (.value json) step = .ok (.object h)) :
    isJump step.kind = true ∧ w.stepFrom eval root Node.null step = .ok (.object h) := by
  have hjump : isJump step.kind = true →
      w.stepFrom eval root (.value json) step = w.stepFrom eval root Node.null step := by
    unfold stepFrom
    cases step.kind <;> first | exact fun _ => rfl | exact fun hkind => nomatch hkind
  suffices hkind : isJump step.kind = true from ⟨hkind, hjump hkind ▸ hstep⟩
  clear hjump
  unfold stepFrom at hstep
  split at hstep
  · obtain ⟨name, -, hmember⟩ := ok_of_bind hstep
    unfold memberOf at hmember
    grind
  · obtain ⟨key, -, hindex⟩ := ok_of_bind hstep
    obtain ⟨index, -, hitem⟩ := ok_of_bind hindex
    unfold itemOf at hitem
    grind
  · obtain ⟨key, -, hkeyed⟩ := ok_of_bind hstep
    unfold keyedIn at hkeyed
    grind
  · obtain ⟨name, -, hcomponent⟩ := ok_of_bind hstep
    cases hcomponent
  · obtain ⟨name, -, hchild⟩ := ok_of_bind hstep
    cases hchild
  · next hkind => rw [hkind]; rfl
  · next hkind => rw [hkind]; rfl
  · obtain ⟨method, -, hcall⟩ := ok_of_bind hstep
    cases hcall
  · unfold literalAt at hstep
    split at hstep
    · obtain ⟨node, -, hnode⟩ := ok_of_bind hstep
      obtain ⟨value, -, hvalue⟩ := ok_of_bind hnode
      obtain ⟨json, -, hjson⟩ := ok_of_bind hvalue
      cases hjson
    · split at hstep <;> cases hstep
  · cases hstep

theorem setSteps_cons_eq (next : Step) (rest : List Step) :
    w.setSteps root value (step :: next :: rest) current = (do
      match ← skippable step (w.enter root current step) with
      | none => return none
      | some child =>
        match ← w.setSteps root value (next :: rest) child with
        | none => return none
        | some (.object _) => return some current
        | some copy => skippable step (w.setAt root current step copy)) := rfl

theorem setSteps_cons (next : Step) (rest : List Step) (s : Scene) :
    (w.setSteps root value (step :: next :: rest) current).run s =
      match ((w.enter root current step).run s).1 with
      | .error e => if step.conditional then (.ok none, s) else (.error e, s)
      | .ok child => match (w.setSteps root value (next :: rest) child).run s with
        | (.error e, t) => (.error e, t)
        | (.ok none, t) => (.ok none, t)
        | (.ok (some (.object _)), t) => (.ok (some current), t)
        | (.ok (some (.value json)), t) =>
          (skippable step (w.setAt root current step (.value json))).run t := by
  obtain ⟨result, hlook⟩ := (enter_looks w root current step).run_eq s
  rw [setSteps_cons_eq, Edit.bind_run, skippable_run, hlook]
  cases result with
  | error e => cases step.conditional <;> rfl
  | ok child =>
      dsimp only
      rw [Edit.bind_run]
      rcases (w.setSteps root value (next :: rest) child).run s with ⟨inner, t⟩
      cases inner with
      | error e => rfl
      | ok node =>
          cases node with
          | none => rfl
          | some node => cases node <;> rfl

theorem skippable_some {α : Type} {p : Edit α} {a : α} {s t : Scene}
    (h : (skippable step p).run s = (.ok (some a), t)) : p.run s = (.ok a, t) := by
  rw [skippable_run] at h
  generalize p.run s = out at h
  obtain ⟨result, u⟩ := out
  cases result with
  | ok b =>
      cases h
      rfl
  | error e =>
      dsimp only at h
      split at h <;> cases h

theorem skippable_error {α : Type} {p : Edit α} {e : AccessError} {s t : Scene}
    (h : (skippable step p).run s = (.error e, t)) : p.run s = (.error e, t) := by
  rw [skippable_run] at h
  generalize p.run s = out at h
  obtain ⟨result, u⟩ := out
  cases result with
  | ok b => cases h
  | error cause =>
      dsimp only at h
      split at h
      · cases h
      · cases h
        rfl

-- What a longer path wrote: below the first step, and then a copy into its slot.
theorem setSteps_ok {next : Step} {rest : List Step} {node : Node} {t : Scene}
    (h : (w.setSteps root value (step :: next :: rest) current).run w.scene = (.ok (some node), t)) :
    ∃ child, w.stepFrom w.evaluate root current step = .ok child ∧
      ((node = current ∧ ∃ handle, (w.setSteps root value (next :: rest) child).run w.scene =
          (.ok (some (.object handle)), t)) ∨
        ∃ json u, (w.setSteps root value (next :: rest) child).run w.scene =
            (.ok (some (.value json)), u) ∧
          (w.setAt root current step (.value json)).run u = (.ok node, t)) := by
  obtain ⟨result, henter⟩ := (enter_looks w root current step).run_eq w.scene
  rw [setSteps_cons, henter] at h
  cases result with
  | error e =>
      dsimp only at h
      split at h <;> cases h
  | ok child =>
      refine ⟨child, (enter_spec henter).1, ?_⟩
      dsimp only at h
      split at h
      · cases h
      · cases h
      · next handle u hrun =>
        cases h
        exact .inl ⟨rfl, handle, hrun⟩
      · next json u hrun => exact .inr ⟨json, u, hrun, skippable_some h⟩

-- Where it fails: on the way, below the first step, or when the copy is put back.
theorem setSteps_error {next : Step} {rest : List Step} {e : AccessError} {t : Scene}
    (h : (w.setSteps root value (step :: next :: rest) current).run w.scene = (.error e, t)) :
    t = w.scene ∨ ∃ child, (w.setSteps root value (next :: rest) child).run w.scene = (.error e, t) ∨
      ∃ json u, (child.isData = true → holdsData step.kind = true) ∧
        (w.setSteps root value (next :: rest) child).run w.scene = (.ok (some (.value json)), u) ∧
        (w.setAt root current step (.value json)).run u = (.error e, t) := by
  obtain ⟨result, henter⟩ := (enter_looks w root current step).run_eq w.scene
  rw [setSteps_cons, henter] at h
  cases result with
  | error e =>
      left
      dsimp only at h
      split at h
      · cases h
      · cases h
        rfl
  | ok child =>
      right
      dsimp only at h
      split at h
      · next cause u hrun =>
        cases h
        exact ⟨child, .inl hrun⟩
      · cases h
      · cases h
      · next json u hrun =>
        exact ⟨child, .inr ⟨json, u, (enter_spec henter).2, hrun, skippable_error h⟩⟩

end Steps

section Failure

variable {w : World} {root current value node : Node} {steps : List Step} {s t : Scene}

def NoMethod (steps : List Step) : Prop := ∀ step ∈ steps, step.kind ≠ .method

theorem setSteps_kind (hm : NoMethod steps)
    (h : (w.setSteps root value steps current).run s = (.ok (some node), t)) :
    node.isData = current.isData := by
  cases steps with
  | nil => cases h
  | cons step rest =>
      have hslot (v : Node) : EditsSlot current (w.setAt root current step v) :=
        setAt_editsSlot (hm step List.mem_cons_self)
      cases rest with
      | nil => exact (hslot value).kind _ _ _ (skippable_some h)
      | cons next rest =>
          rw [setSteps_cons] at h
          split at h
          · split at h <;> cases h
          · split at h
            · cases h
            · cases h
            · cases h
              rfl
            · exact (hslot _).kind _ _ _ (skippable_some h)

-- A step from data leads to a live object, and the rest of the path was written below it.
def Below (w : World) (root value : Node) (steps : List Step) (t : Scene) : Prop :=
  ∃ before jump after h node, steps = before ++ jump :: after ∧ isJump jump.kind = true ∧
    w.stepFrom w.evaluate root Node.null jump = .ok (.object h) ∧
    (w.setSteps root value after (.object h)).run w.scene = (.ok (some node), t)

theorem Below.cons {step : Step} (h : w.Below root value steps t) :
    w.Below root value (step :: steps) t := by
  obtain ⟨before, jump, after, handle, node, rfl, hjump⟩ := h
  exact ⟨step :: before, jump, after, handle, node, rfl, hjump⟩

-- A copy is written without a change of the scene, unless the path leaves it for an object.
theorem scene_of_copy {json : Json} (hm : NoMethod steps)
    (h : (w.setSteps root value steps (.value json)).run w.scene = (.ok (some node), t)) :
    t = w.scene ∨ w.Below root value steps t := by
  induction steps generalizing json node t with
  | nil => cases h
  | cons step rest ih =>
      have hlook (v : Node) : Edit.Looks (w.setAt root (.value json) step v) :=
        (setAt_editsSlot (hm step List.mem_cons_self)).looks rfl
      cases rest with
      | nil =>
          have hscene := hlook value w.scene
          rw [skippable_some h] at hscene
          exact .inl hscene
      | cons next rest =>
          have hrest : NoMethod (next :: rest) := fun step hstep => hm step (List.mem_cons_of_mem _ hstep)
          obtain ⟨child, hstep, hdone⟩ := setSteps_ok h
          rcases hdone with ⟨-, handle, hrun⟩ | ⟨copy, u, hrun, hput⟩
          · have hkind := setSteps_kind hrest hrun
            cases child with
            | value json => cases hkind
            | object target =>
                obtain ⟨hjump, hleads⟩ := jump_of_stepFrom hstep
                exact .inr ⟨[], step, next :: rest, target, _, rfl, hjump, hleads, hrun⟩
          · have hkind := setSteps_kind hrest hrun
            have hscene := hlook (.value copy) u
            rw [hput] at hscene
            cases child with
            | object target => cases hkind
            | value json =>
                cases hscene
                exact (ih hrest hrun).imp_right Below.cons

-- A step of the path leads to a copy of data, and a later one from such a copy to an object.
def Escaped (w : World) (root value : Node) (steps : List Step) (t : Scene) : Prop :=
  ∃ before step rest, steps = before ++ step :: rest ∧ holdsData step.kind = true ∧
    w.Below root value rest t

theorem scene_of_failure (hm : NoMethod steps) {e : AccessError}
    (h : (w.setSteps root value steps current).run w.scene = (.error e, t)) :
    t = w.scene ∨ w.Escaped root value steps t := by
  induction steps generalizing current t with
  | nil => cases h
  | cons step rest ih =>
      have hatomic (v : Node) : Edit.Atomic (w.setAt root current step v) :=
        (setAt_editsSlot (hm step List.mem_cons_self)).atomic
      cases rest with
      | nil => exact .inl (hatomic value _ _ _ (skippable_error h))
      | cons next rest =>
          have hrest : NoMethod (next :: rest) := fun step hstep => hm step (List.mem_cons_of_mem _ hstep)
          rcases setSteps_error h with hsame | ⟨child, hrun | ⟨json, u, hdata, hrun, hput⟩⟩
          · exact .inl hsame
          · refine (ih hrest hrun).imp_right ?_
            rintro ⟨before, held, rest, heq, hescaped⟩
            exact ⟨step :: before, held, rest, by rw [heq, List.cons_append], hescaped⟩
          · -- The copy is lost, and with it all but what was written below an object.
            have hkind := setSteps_kind hrest hrun
            rw [hatomic _ _ _ _ hput]
            cases child with
            | object target => cases hkind
            | value copy =>
                exact (scene_of_copy hrest hrun).imp_right fun hbelow =>
                  ⟨[], step, next :: rest, rfl, hdata rfl, hbelow⟩

-- A path that goes to no object by its name once it has reached data does not escape.
theorem not_escaped
    (hjump : steps.Pairwise fun a b => holdsData a.kind = true → isJump b.kind = false) :
    ¬w.Escaped root value steps t := by
  rintro ⟨before, step, rest, rfl, hdata, lead, jump, after, handle, node, rfl, hkind, -⟩
  have hmem : jump ∈ lead ++ jump :: after := by simp
  have hfree := (List.pairwise_cons.1 (List.pairwise_append.1 hjump).2.1).1 jump hmem hdata
  rw [hkind] at hfree
  cases hfree

theorem runEdit_error {α : Type} {edit : Edit (Node × α)} {e : AccessError}
    (h : (w.runEdit root edit).result = .error e) : ∃ t, edit.run w.scene = (.error e, t) ∧
      (w.runEdit root edit).root = root ∧ (w.runEdit root edit).world = { w with scene := t } := by
  unfold runEdit at h ⊢
  generalize edit.run w.scene = out at h ⊢
  obtain ⟨result, t⟩ := out
  cases result with
  | ok a => cases h
  | error cause =>
      cases h
      exact ⟨t, rfl, rfl, rfl⟩

theorem set_eq {path : Path} (hne : path.steps ≠ []) :
    w.set root path value = match (w.setSteps root value path.steps root).run w.scene with
      | (.ok node, t) => ⟨{ w with scene := t }, node.getD root, .ok ()⟩
      | (.error e, t) => ⟨{ w with scene := t }, root, .error e⟩ := by
  unfold set runEdit setNode
  rw [if_neg hne, Edit.bind_run, Edit.bind_run]
  rcases (w.setSteps root value path.steps root).run w.scene with ⟨result, t⟩
  cases result <;> rfl

theorem set_nil {path : Path} (hnil : path.steps = []) :
    w.set root path value = ⟨w, root, .error (.notAssignable "root")⟩ := by
  unfold set runEdit setNode
  rw [if_pos hnil]
  rfl

theorem setNode_error {path : Path} (hm : NoMethod path.steps) {e : AccessError}
    (h : (w.setNode root path value).run w.scene = (.error e, t)) :
    t = w.scene ∨ w.Escaped root value path.steps t := by
  unfold setNode at h
  split at h
  · cases h
    exact .inl rfl
  · exact scene_of_failure hm (Edit.error_of_map h)

theorem set_error {path : Path} (hm : NoMethod path.steps) {e : AccessError}
    (h : (w.set root path value).result = .error e) :
    (w.set root path value).root = root ∧ ∃ t, (w.set root path value).world = { w with scene := t } ∧
      (t = w.scene ∨ w.Escaped root value path.steps t) := by
  obtain ⟨t, hrun, hroot, hworld⟩ := runEdit_error h
  exact ⟨hroot, t, hworld, setNode_error hm (Edit.error_of_map hrun)⟩

theorem assign_error {path : Path} (hm : NoMethod path.steps) {expr : Expression} {e : AccessError}
    (h : (w.assign root path expr).result = .error e) :
    (w.assign root path expr).root = root ∧ ∃ t, (w.assign root path expr).world = { w with scene := t } ∧
      (t = w.scene ∨ ∃ value, w.valueOf root path expr = .ok value ∧
        w.Escaped root value path.steps t) := by
  obtain ⟨t, hrun, hroot, hworld⟩ := runEdit_error h
  refine ⟨hroot, t, hworld, ?_⟩
  have hreading : (w.reading fun w => w.valueOf root path expr).run w.scene =
      (w.valueOf root path expr, w.scene) := rfl
  rw [Edit.bind_run, hreading] at hrun
  cases hvalue : w.valueOf root path expr with
  | error cause =>
      rw [hvalue] at hrun
      cases hrun
      exact .inl rfl
  | ok value =>
      rw [hvalue] at hrun
      exact (setNode_error hm (Edit.error_of_map hrun)).imp_right fun hescaped => ⟨value, rfl, hescaped⟩

-- So nothing is left of it if the path goes to no object by name after it has reached data.
theorem untouched_of_error {path : Path} (hm : NoMethod path.steps)
    (hjump : path.steps.Pairwise fun a b => holdsData a.kind = true → isJump b.kind = false) :
    (∀ e, (w.set root path value).result = .error e →
      (w.set root path value).root = root ∧ (w.set root path value).world = w) ∧
    ∀ expr e, (w.assign root path expr).result = .error e →
      (w.assign root path expr).root = root ∧ (w.assign root path expr).world = w := by
  constructor
  · intro e herror
    obtain ⟨hroot, t, hworld, rfl | hescaped⟩ := set_error hm herror
    · exact ⟨hroot, hworld⟩
    · exact (not_escaped hjump hescaped).elim
  · intro expr e herror
    obtain ⟨hroot, t, hworld, rfl | ⟨value, -, hescaped⟩⟩ := assign_error hm herror
    · exact ⟨hroot, hworld⟩
    · exact (not_escaped hjump hescaped).elim

-- A write that fails leaves the root as it was. It leaves all objects as they were too, unless the
-- path goes from a copy of data to a live object and the write below this object succeeded: then
-- this is what is left.
theorem failed_write (w : World) (root : Node) {path : Path} (hm : NoMethod path.steps) :
    (∀ value e, (w.set root path value).result = .error e →
      (w.set root path value).root = root ∧
      ∃ t, (w.set root path value).world = { w with scene := t } ∧
        (t = w.scene ∨ w.Escaped root value path.steps t)) ∧
    ∀ expr e, (w.assign root path expr).result = .error e →
      (w.assign root path expr).root = root ∧
      ∃ t, (w.assign root path expr).world = { w with scene := t } ∧
        (t = w.scene ∨ ∃ value, w.valueOf root path expr = .ok value ∧
          w.Escaped root value path.steps t) :=
  ⟨fun _ _ => set_error hm, fun _ _ => assign_error hm⟩

end Failure

-- The number of children is data, and cannot be set. What is put back into it is not the name that
-- was set on the way.
section Bystander

def twins : World where
  scene := { objects := [.entity { name := "A" }, .entity { name := "B" }] }
  registry := { entries := [("A", { handle := 0 }), ("B", { handle := 1 })], names := [(0, "A"), (1, "B")] }

def roundabout : Path where
  text := "childCount/object:B/name"
  steps := [{ kind := .member, value := "childCount" }, { kind := .object, value := "B" },
    { kind := .member, value := "name" }]

theorem roundabout_noMethod : NoMethod roundabout.steps := by simp [NoMethod, roundabout]

theorem roundabout_refused : (twins.set (.object 0) roundabout (.value (.str "X"))).result =
    .error (.readOnly "childCount" "GameObject") := by
  rfl

theorem failed_write_bystander : NoMethod roundabout.steps ∧
    (twins.set (.object 0) roundabout (.value (.str "X"))).result =
      .error (.readOnly "childCount" "GameObject") ∧
    (twins.set (.object 0) roundabout (.value (.str "X"))).root = .object 0 ∧
    ∃ t, (twins.set (.object 0) roundabout (.value (.str "X"))).world = { twins with scene := t } ∧
      (t = twins.scene ∨
        twins.Escaped (.object 0) (.value (.str "X")) roundabout.steps t) :=
  ⟨roundabout_noMethod, roundabout_refused,
    (failed_write twins (.object 0) roundabout_noMethod).1 _ _ roundabout_refused⟩

theorem failed_write_renames : ∃ (w : World) (root value : Node) (path : Path) (e : AccessError),
    NoMethod path.steps ∧ (w.set root path value).result = .error e ∧
      (w.set root path value).world ≠ w := by
  refine ⟨twins, .object 0, .value (.str "X"), roundabout, .readOnly "childCount" "GameObject",
    roundabout_noMethod, roundabout_refused, fun hsame => ?_⟩
  have hnames := congrArg (fun w => w.scene.nameOf? 1) hsame
  revert hnames
  decide +kernel

end Bystander

end World

end SceneLink
