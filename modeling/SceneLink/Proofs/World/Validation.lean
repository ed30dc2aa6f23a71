import SceneLink.Proofs.World.Excited
import SceneLink.Proofs.World.Literal

namespace SceneLink

-- A failure to understand a text, and not to find what it asks for.
def AccessError.isMisspelling : AccessError → Bool
  | invalidLiteral _ _ | expression _ | path _ => true
  | _ => false

section Outcomes

variable {α β : Type}

-- If it fails, all texts were understood.
def Legible (result : Except AccessError α) : Prop := ∀ e, result = .error e → e.isMisspelling = false

private theorem legible_ok (a : α) : Legible (.ok a) := nofun

private theorem legible_error {e : AccessError} (he : e.isMisspelling = false) :
    Legible (.error e : Except AccessError α) := by
  intro cause hcause
  cases hcause
  exact he

theorem Legible.bind {result : Except AccessError α} {f : α → Except AccessError β} (h : Legible result)
    (hf : ∀ a, Legible (f a)) : Legible (result >>= f) := by
  cases result with
  | ok a => exact hf a
  | error e => exact legible_error (h e rfl)

theorem Legible.map {result : Except AccessError α} (h : Legible result) (f : α → β) : Legible (result.map f) := by
  cases result with
  | ok a => exact legible_ok _
  | error e => exact legible_error (h e rfl)

end Outcomes

namespace Node

variable (found : Node → String) (node : Node)

private theorem expect_legible {α : Type} (expected : String) (read : Json → Option α) :
    Legible (node.expect found expected read) := by
  unfold expect
  split
  · exact legible_ok _
  · exact legible_error rfl

private theorem toValue_legible : Legible (node.toValue found) := expect_legible found node _ _

private theorem toBool_legible : Legible (node.toBool found) := expect_legible found node _ _

private theorem toText_legible : Legible (node.toText found) := expect_legible found node _ _

private theorem toVec3_legible : Legible (node.toVec3 found) := expect_legible found node _ _

end Node

namespace Object

private theorem item_legible (object : Object) (index : Nat) : Legible (object.item index) := by
  unfold item
  split
  · split
    · exact legible_ok _
    · exact legible_error rfl
  · exact legible_error rfl

private theorem key_legible (object : Object) (key : String) : Legible (object.key key) := by
  unfold Object.key
  split
  · exact legible_error rfl
  · split
    · exact legible_ok _
    · exact legible_error rfl

theorem setMember_legible (found : Node → String) (object : Object) (name : String) (value : Node) :
    Legible (object.setMember found name value) := by
  cases object with
  | entity e =>
      refine Legible.map ?_ _
      unfold Entity.setMember
      split
      · exact legible_error rfl
      · exact (value.toText_legible found).map _
      · exact (value.toText_legible found).map _
      · exact (value.toBool_legible found).map _
      · exact (value.toVec3_legible found).map _
      · exact (value.toVec3_legible found).map _
      · exact (value.toVec3_legible found).map _
      · exact legible_error rfl
      · exact legible_error rfl
  | component c =>
      refine Legible.map ?_ _
      unfold Component.setMember
      split
      · exact (value.toBool_legible found).map _
      · split
        · exact (value.toValue_legible found).map _
        · exact legible_error rfl

theorem setKey_legible (found : Node → String) (object : Object) (key : String) (value : Node) :
    Legible (object.setKey found key value) := by
  cases object with
  | entity e => exact legible_error rfl
  | component c => exact ((value.toValue_legible found).map _).map _

end Object

namespace Scene

variable (s : Scene) (h : Handle)

theorem read_legible : Legible (s.read h) := by
  unfold read
  split
  · exact legible_ok _
  · exact legible_error rfl

theorem writable_legible : Legible (s.writable h) := by
  unfold writable
  split
  · exact legible_ok _
  · exact legible_error rfl

theorem modify_legible {change : (Node → String) → Object → Except AccessError Object}
    (hchange : ∀ found object, Legible (change found object)) : Legible (s.modify h change) :=
  (s.writable_legible h).bind fun object => (hchange _ object).bind fun _ => legible_ok _

theorem call_legible (method : String) (args : List Json) : Legible (s.call h method args).result := by
  unfold call
  cases hwritable : s.writable h with
  | error e => exact legible_error (s.writable_legible h e hwritable)
  | ok object =>
      dsimp only
      cases object.invoke? method args with
      | none => exact legible_error rfl
      | some called =>
          dsimp only
          cases called.result with
          | ok json => exact legible_ok json
          | error reason => exact legible_error rfl

end Scene

namespace World

section Reading

variable (w : World) {eval : Evaluator} {root current : Node} {step : Step}

theorem memberOf_legible (current : Node) (name : String) : Legible (w.memberOf current name) := by
  unfold memberOf
  split
  · refine (w.scene.read_legible _).bind fun object => ?_
    split
    · exact legible_ok _
    · exact legible_error rfl
  · split
    · exact legible_ok _
    · exact legible_error rfl
  · exact legible_error rfl

theorem itemOf_legible (current : Node) (index : Nat) : Legible (w.itemOf current index) := by
  unfold itemOf
  split
  · exact (w.scene.read_legible _).bind fun object => object.item_legible index
  · split
    · exact legible_ok _
    · exact legible_error rfl
  · exact legible_error rfl

theorem keyedIn_legible (current : Node) (key : String) : Legible (w.keyedIn current key) := by
  unfold keyedIn
  split
  · exact (w.scene.read_legible _).bind fun object => object.key_legible key
  · split
    · exact legible_ok _
    · exact legible_error rfl
  · exact legible_error rfl

theorem objectFor_legible (current : Node) (step : Step) : Legible (w.objectFor current step) := by
  cases current with
  | object h => exact legible_ok h
  | value json => exact legible_error rfl

theorem componentOf_legible (h : Handle) (name : String) : Legible (w.componentOf h name) := by
  refine (w.scene.read_legible h).bind fun object => ?_
  split
  · exact legible_ok _
  · exact legible_error rfl

theorem childOf_legible (h : Handle) (name : String) : Legible (w.childOf h name) := by
  refine (w.scene.read_legible h).bind fun object => ?_
  split
  · exact legible_ok _
  · exact legible_error rfl

-- The reader of positions understands what the check has let through.
theorem readIndex_of_fits (hkind : step.kind = .index) (hfits : Path.Fits step.kind step.value) :
    ∃ index, readIndex step.value = .ok index := by
  obtain ⟨index, hindex⟩ := hfits.index? hkind
  have hread : Text.index? step.value.toList = some index := hindex
  exact ⟨index, by unfold readIndex; rw [hread]⟩

-- So do the readers of literals, and they give the value that they gave to the check.
theorem literal?_of_fits {type : Literal} (hkind : step.kind = .literal type)
    (hfits : Path.Fits step.kind step.value) (hverbatim : step.excited = false) :
    ∃ json, step.literal? = some json ∧ ∀ (w : World) (eval : Evaluator) (root current : Node),
      w.stepFrom eval root current step = .ok (.value json) := by
  obtain ⟨json, hread⟩ := hfits.read? hkind
  refine ⟨json, ?_, fun w eval root current => ?_⟩
  · unfold Step.literal?
    rw [hkind]
    exact hread
  · rw [stepFrom_literal hkind, literalAt_verbatim hverbatim hread]

theorem stepFrom_legible (hfits : Path.Fits step.kind step.value) (hverbatim : step.excited = false) :
    Legible (w.stepFrom eval root current step) := by
  have hkey : w.stepKey eval root step = .ok step.value := stepKey_verbatim eval hverbatim
  unfold stepFrom
  rw [hkey]
  cases hkind : step.kind with
  | member => exact w.memberOf_legible current step.value
  | index =>
      obtain ⟨index, hindex⟩ := readIndex_of_fits hkind hfits
      dsimp only [bind, Except.bind]
      rw [hindex]
      exact w.itemOf_legible current index
  | map => exact w.keyedIn_legible current step.value
  | component => exact (w.objectFor_legible current step).bind fun h => w.componentOf_legible h step.value
  | transform => exact (w.objectFor_legible current step).bind fun h => w.childOf_legible h step.value
  | resource | object =>
      dsimp only [bind, Except.bind]
      split
      · exact legible_ok _
      · exact legible_error rfl
  | method =>
      exact (w.objectFor_legible current step).bind fun h => (w.scene.call_legible h step.value []).map _
  | literal type =>
      obtain ⟨json, -, hstep⟩ := literal?_of_fits hkind hfits hverbatim
      dsimp only
      rw [← stepFrom_literal hkind, hstep]
      exact legible_ok _
  | unknown tag => exact legible_error rfl

-- By induction on the steps. A failing conditional step ends the walk without a failure.
theorem walk_legible {steps : List Step} (hfits : ∀ step ∈ steps, Path.Fits step.kind step.value)
    (hverbatim : ∀ step ∈ steps, step.excited = false) (current : Node) :
    Legible (w.walk eval root steps current) := by
  induction steps generalizing current with
  | nil => exact legible_ok current
  | cons step steps ih =>
      obtain ⟨hfit, hfits⟩ := List.forall_mem_cons.1 hfits
      obtain ⟨hplain, hverbatim⟩ := List.forall_mem_cons.1 hverbatim
      have hstep : Legible (w.stepFrom eval root current step) := w.stepFrom_legible hfit hplain
      rw [walk]
      split
      · next next _ => exact ih hfits hverbatim next
      · next e he =>
        split
        · exact legible_ok _
        · exact legible_error (hstep e he)

end Reading

end World

namespace Edit

variable {α β : Type}

def Legible (p : Edit α) : Prop := ∀ s, SceneLink.Legible (p.run s).1

theorem legible_pure (a : α) : Legible (pure a) := fun _ => legible_ok a

theorem legible_throw {e : AccessError} (he : e.isMisspelling = false) : Legible (throw e : Edit α) :=
  fun _ => legible_error he

theorem legible_reading {w : World} {f : World → Except AccessError α}
    (h : ∀ s, SceneLink.Legible (f { w with scene := s })) : Legible (w.reading f) := h

theorem legible_toValue (node : Node) : Legible (toValue node) := fun s => node.toValue_legible s.describe

theorem legible_call (h : Handle) (method : String) (args : List Json) : Legible (call h method args) :=
  fun s => s.call_legible h method args

theorem legible_change {f : Scene → Except AccessError Scene} (h : ∀ s, SceneLink.Legible (f s)) :
    Legible (change f) := by
  intro s
  rw [change_run]
  cases hf : f s with
  | ok t => exact legible_ok ()
  | error e => exact legible_error (h s e hf)

theorem Legible.bind {p : Edit α} {f : α → Edit β} (hp : Legible p) (hf : ∀ a, Legible (f a)) :
    Legible (p >>= f) := by
  intro s
  have hrun := hp s
  rw [bind_run]
  generalize p.run s = out at hrun
  obtain ⟨result, t⟩ := out
  cases result with
  | ok a => exact hf a t
  | error e => exact legible_error (hrun e rfl)

theorem legible_skippable {p : Edit α} (hp : Legible p) (step : Step) : Legible (World.skippable step p) := by
  intro s
  have hrun := hp s
  rw [World.skippable_run]
  generalize p.run s = out at hrun
  obtain ⟨result, t⟩ := out
  cases result with
  | ok a => exact legible_ok _
  | error e =>
      dsimp only
      split
      · exact legible_ok _
      · exact legible_error (hrun e rfl)

end Edit

namespace World

section Writing

open Edit

variable (w : World) {root current value : Node} {step : Step}

theorem setMember_legible (current : Node) (name : String) (value : Node) :
    Edit.Legible (setMember current name value) := by
  unfold setMember
  split
  · have hchange (h : Handle) : Edit.Legible (change (·.setMember h name value)) :=
      legible_change fun s => s.modify_legible h fun found object => object.setMember_legible found name value
    exact (hchange _).bind fun _ => legible_pure _
  · split
    · exact (legible_toValue value).bind fun _ => legible_pure _
    · exact legible_throw rfl
  · exact legible_throw rfl

theorem setItem_legible (current : Node) (index : Nat) (value : Node) :
    Edit.Legible (setItem current index value) := by
  unfold setItem
  split
  · have hchange (h : Handle) : Edit.Legible (change (·.setItem h)) :=
      legible_change fun s => s.modify_legible h fun _ _ => legible_error rfl
    exact (hchange _).bind fun _ => legible_pure _
  · split
    · exact (legible_toValue value).bind fun _ => legible_pure _
    · exact legible_throw rfl
  · exact legible_throw rfl

theorem setKey_legible (current : Node) (key : String) (value : Node) :
    Edit.Legible (setKey current key value) := by
  unfold setKey
  split
  · have hchange (h : Handle) : Edit.Legible (change (·.setKey h key value)) :=
      legible_change fun s => s.modify_legible h fun found object => object.setKey_legible found key value
    exact (hchange _).bind fun _ => legible_pure _
  · exact (legible_toValue value).bind fun _ => legible_pure _
  · exact legible_throw rfl

theorem setAt_legible (hfits : Path.Fits step.kind step.value) (hverbatim : step.excited = false) :
    Edit.Legible (w.setAt root current step value) := by
  have hkey : (w.reading fun w => w.stepKey w.evaluate root step) = pure step.value :=
    funext fun _ => Prod.ext (stepKey_verbatim _ hverbatim) rfl
  unfold setAt
  dsimp only
  rw [hkey]
  split
  · rw [pure_bind]
    exact setMember_legible current step.value value
  · next hkind =>
    obtain ⟨index, hindex⟩ := readIndex_of_fits hkind hfits
    have hread : attempt (readIndex step.value) = pure index := by rw [hindex]; rfl
    rw [pure_bind, hread, pure_bind]
    exact setItem_legible current index value
  · rw [pure_bind]
    exact setKey_legible current step.value value
  · have hobject : Edit.Legible (w.reading fun w => w.objectFor current step) :=
      legible_reading fun s => objectFor_legible _ current step
    rw [pure_bind]
    exact hobject.bind fun h => (legible_toValue value).bind fun _ => (legible_call h _ _).bind fun _ =>
      legible_pure current
  · exact legible_throw rfl
  · exact legible_throw rfl

theorem enter_legible (hfits : Path.Fits step.kind step.value) (hverbatim : step.excited = false) :
    Edit.Legible (w.enter root current step) := by
  have hstep : Edit.Legible (w.reading fun w => w.stepFrom w.evaluate root current step) :=
    legible_reading fun s => stepFrom_legible _ hfits hverbatim
  refine hstep.bind fun child => ?_
  split
  · exact legible_pure _
  · split
    · exact legible_pure _
    · exact legible_throw rfl

-- By induction on the steps, each of which is entered, and may be assigned to once more on the way back.
theorem setSteps_legible {steps : List Step} (hfits : ∀ step ∈ steps, Path.Fits step.kind step.value)
    (hverbatim : ∀ step ∈ steps, step.excited = false) (current : Node) :
    Edit.Legible (w.setSteps root value steps current) := by
  induction steps generalizing current with
  | nil => exact legible_pure none
  | cons step rest ih =>
      obtain ⟨hfit, hfits⟩ := List.forall_mem_cons.1 hfits
      obtain ⟨hplain, hverbatim⟩ := List.forall_mem_cons.1 hverbatim
      have hput (v : Node) : Edit.Legible (skippable step (w.setAt root current step v)) :=
        legible_skippable (w.setAt_legible hfit hplain) step
      cases rest with
      | nil => exact hput value
      | cons next rest =>
          rw [setSteps_cons_eq]
          refine (legible_skippable (w.enter_legible hfit hplain) step).bind fun found => ?_
          cases found with
          | none => exact legible_pure none
          | some child =>
              refine (ih hfits hverbatim child).bind fun written => ?_
              split
              · exact legible_pure none
              · exact legible_pure _
              · exact hput _

theorem runEdit_legible {α : Type} {edit : Edit (Node × α)} (h : Edit.Legible edit) :
    Legible (w.runEdit root edit).result := by
  have hrun := h w.scene
  unfold runEdit
  generalize edit.run w.scene = out at hrun ⊢
  obtain ⟨result, t⟩ := out
  cases result with
  | ok both => exact legible_ok both.2
  | error e => exact legible_error (hrun e rfl)

theorem setNode_legible {path : Path} (hfits : ∀ step ∈ path.steps, Path.Fits step.kind step.value)
    (hverbatim : ∀ step ∈ path.steps, step.excited = false) : Edit.Legible (w.setNode root path value) := by
  unfold setNode
  split
  · exact legible_throw rfl
  · exact (w.setSteps_legible hfits hverbatim root).bind fun _ => legible_pure _

end Writing

-- The check of a path is complete. In any world, at any node and whatever the other steps are, a step that is not
-- excited understands its text, whether it is read, assigned to or put back, and whether its failure counts or not.
-- If it is a literal, it gives the value that the check has seen. So a path without excited steps never fails for a
-- misspelled index, literal, expression or path.
theorem validation_complete {text : String} {path : Path} (hparse : Path.parse text = .ok path) :
    (∀ step ∈ path.steps, step.excited = false →
      (∀ (w : World) (eval : Evaluator) (root current : Node), Legible (w.stepFrom eval root current step)) ∧
      (∀ (w : World) (root current value : Node), Edit.Legible (w.setAt root current step value)) ∧
      (step.kind.isLiteral = true → ∃ json, step.literal? = some json ∧
        ∀ (w : World) (eval : Evaluator) (root current : Node),
          w.stepFrom eval root current step = .ok (.value json))) ∧
    ((∀ step ∈ path.steps, step.excited = false) → ∀ (w : World) (root : Node),
      Legible (w.get root path) ∧ ∀ value, Legible (w.set root path value).result) := by
  have hfits (step : Step) (hstep : step ∈ path.steps) (hplain : step.excited = false) :
      Path.Fits step.kind step.value := Path.fits_of_parse hparse hstep hplain
  refine ⟨fun step hstep hplain => ⟨fun w eval root current => ?_, fun w root current value => ?_, ?_⟩,
    fun hverbatim w root => ⟨?_, fun value => ?_⟩⟩
  · exact w.stepFrom_legible (hfits step hstep hplain) hplain
  · exact w.setAt_legible (hfits step hstep hplain) hplain
  · intro hliteral
    cases hkind : step.kind with
    | literal type => exact literal?_of_fits hkind (hfits step hstep hplain) hplain
    | _ =>
        rw [hkind] at hliteral
        cases hliteral
  · exact w.walk_legible (fun step hstep => hfits step hstep (hverbatim step hstep)) hverbatim root
  · exact w.runEdit_legible ((w.setNode_legible (fun step hstep => hfits step hstep (hverbatim step hstep))
      hverbatim).bind fun _ => Edit.legible_pure _)

-- A path that asks for an item of its own literal. It fails, and not for what it spells.
section Mismatch

def itemOfTruth : Path where
  text := "bool: TRUE/list:+2"
  steps := [{ kind := .literal .boolean, value := " TRUE" }, { kind := .index, value := "+2" }]

theorem validation_complete_truth :
    Path.parse "bool: TRUE/list:+2" = .ok itemOfTruth ∧ (∀ step ∈ itemOfTruth.steps, step.excited = false) ∧
    World.get {} Node.null itemOfTruth = .error (.notIndexable "boolean") ∧
    (∃ json, Literal.boolean.read? " TRUE" = some json ∧ ∀ (w : World) (eval : Evaluator) (root current : Node),
      w.stepFrom eval root current { kind := .literal .boolean, value := " TRUE" } = .ok (.value json)) ∧
    ∀ (w : World) (root : Node), Legible (w.get root itemOfTruth) ∧
      ∀ value, Legible (w.set root itemOfTruth value).result := by
  have hparse : Path.parse "bool: TRUE/list:+2" = .ok itemOfTruth := by rfl
  have hverbatim : ∀ step ∈ itemOfTruth.steps, step.excited = false := by simp [itemOfTruth]
  obtain ⟨hsteps, hruns⟩ := validation_complete hparse
  refine ⟨hparse, hverbatim, rfl, ?_, hruns hverbatim⟩
  exact (hsteps _ List.mem_cons_self rfl).2.2 rfl

-- Only an excited step finds out that it has no position.
example : Path.parse "index:x!" = .ok ⟨"index:x!", [{ kind := .index, value := "x", excited := true }]⟩ ∧
    World.get {} Node.null ⟨"index:x!", [{ kind := .index, value := "x", excited := true }]⟩ =
      .error (.invalidLiteral "index" "x") :=
  ⟨rfl, rfl⟩

end Mismatch

end World

end SceneLink
