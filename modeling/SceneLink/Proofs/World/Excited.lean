import Mathlib.Data.List.Forall2
import SceneLink.Proofs.Scene.Cell
import SceneLink.Proofs.World.FailedWrite

namespace SceneLink

-- The same failure, up to how it names the step that needs an object.
def AccessError.Akin (e e' : AccessError) : Prop :=
  e = e' ∨ ∃ step step' found, e = .notAnObject step found ∧ e' = .notAnObject step' found

-- The same value, or failures of one kind.
def Agree {α : Type} : Except AccessError α → Except AccessError α → Prop
  | .ok a, .ok b => a = b
  | .error e, .error e' => e.Akin e'
  | _, _ => False

theorem Agree.refl {α : Type} (result : Except AccessError α) : Agree result result := by
  cases result with
  | ok a => exact rfl
  | error e => exact .inl rfl

namespace World

-- The kinds of steps whose value is a name, a position or an identifier.
def takesKey : StepKind → Bool
  | .member | .index | .map | .component | .transform | .resource | .object => true
  | _ => false

-- A step with the key that its value is evaluated to, and the same step if it is not excited.
structure Evaluates (w : World) (root : Node) (step plain : Step) : Prop where
  kind : plain.kind = step.kind
  conditional : plain.conditional = step.conditional
  verbatim : plain.excited = false
  key : w.stepKey w.evaluate root step = .ok plain.value

section Steps

variable {w : World} {root current value : Node} {step plain : Step} {s : Scene}

theorem stepKey_verbatim (eval : Evaluator) (hverbatim : step.excited = false) :
    w.stepKey eval root step = .ok step.value := by
  unfold stepKey
  rw [hverbatim]
  rfl

theorem objectFor_agree {f : Handle → Except AccessError Node} :
    Agree (w.objectFor current step >>= f) (w.objectFor current plain >>= f) := by
  cases current with
  | object h => exact Agree.refl _
  | value json => exact .inr ⟨_, _, _, rfl, rfl⟩

theorem stepFrom_agree (hstep : w.Evaluates root step plain) (htakes : takesKey step.kind = true) :
    Agree (w.stepFrom w.evaluate root current step) (w.stepFrom w.evaluate root current plain) := by
  have hplain : w.stepKey w.evaluate root plain = _ := stepKey_verbatim _ hstep.verbatim
  unfold stepFrom
  rw [hstep.kind, hstep.key, hplain]
  cases hkind : step.kind with
  | component => exact objectFor_agree
  | transform => exact objectFor_agree
  | method | literal type | unknown tag =>
      rw [hkind] at htakes
      cases htakes
  | _ => exact Agree.refl _

theorem setAt_evaluated (hkind : plain.kind = step.kind) (hverbatim : plain.excited = false)
    (htakes : takesKey step.kind = true)
    (hkey : ({ w with scene := s } : World).stepKey ({ w with scene := s } : World).evaluate root step =
      .ok plain.value) :
    (w.setAt root current step value).run s = (w.setAt root current plain value).run s := by
  have hread : (w.reading fun w => w.stepKey w.evaluate root step).run s = (.ok plain.value, s) :=
    Prod.ext hkey rfl
  have hread' : (w.reading fun w => w.stepKey w.evaluate root plain).run s = (.ok plain.value, s) :=
    Prod.ext (stepKey_verbatim _ hverbatim) rfl
  unfold setAt
  dsimp only
  rw [hkind]
  cases hkind : step.kind with
  | member | index | map =>
      dsimp only
      rw [Edit.bind_run, Edit.bind_run, hread, hread']
  | method =>
      rw [hkind] at htakes
      cases htakes
  | _ => rfl

theorem enter_run (w : World) (root current : Node) (step : Step) :
    ((w.enter root current step).run w.scene).1 =
      match w.stepFrom w.evaluate root current step with
      | .ok (.object h) => .ok (.object h)
      | .ok (.value json) =>
        if holdsData step.kind then .ok (.value json) else .error (.notAssignable step.kind.name)
      | .error e => .error e := by
  have hreading : (w.reading fun w => w.stepFrom w.evaluate root current step).run w.scene =
      (w.stepFrom w.evaluate root current step, w.scene) := rfl
  unfold enter
  rw [Edit.bind_run, hreading]
  cases w.stepFrom w.evaluate root current step with
  | error e => rfl
  | ok child =>
      cases child with
      | object h => rfl
      | value json =>
          dsimp only
          split <;> rfl

theorem enter_agree (hstep : w.Evaluates root step plain) (htakes : takesKey step.kind = true) :
    Agree ((w.enter root current step).run w.scene).1 ((w.enter root current plain).run w.scene).1 := by
  have hagree : Agree (w.stepFrom _ root current step) (w.stepFrom _ root current plain) :=
    stepFrom_agree hstep htakes
  rw [enter_run, enter_run, hstep.kind]
  generalize w.stepFrom w.evaluate root current step = result at hagree
  generalize w.stepFrom w.evaluate root current plain = result' at hagree
  cases result with
  | error e =>
      cases result' with
      | error e' => exact hagree
      | ok child => exact hagree.elim
  | ok child =>
      cases result' with
      | error e => exact hagree.elim
      | ok child' =>
          cases hagree
          exact Agree.refl _

end Steps

section Runs

variable {w : World} {root current value : Node} {step : Step} {steps plains : List Step} {t : Scene}

theorem noMethod_of_takesKey (hsteps : ∀ step ∈ steps, takesKey step.kind = true) : NoMethod steps := by
  intro step hstep hmethod
  have htakes := hsteps step hstep
  rw [hmethod] at htakes
  cases htakes

-- What is written below an object on the way does not change the key of an excited step whose copy is
-- put back after that.
def KeepsKeys (w : World) (root value : Node) (steps : List Step) : Prop :=
  ∀ before step rest, steps = before ++ step :: rest → step.excited = true → holdsData step.kind = true →
    ∀ t, w.Below root value rest t →
      ({ w with scene := t } : World).stepKey ({ w with scene := t } : World).evaluate root step =
        w.stepKey w.evaluate root step

theorem KeepsKeys.tail (h : w.KeepsKeys root value (step :: steps)) : w.KeepsKeys root value steps := by
  intro before other rest heq
  exact h (step :: before) other rest (by rw [heq, List.cons_append])

-- A step that puts back what was written in its copy has the key that it had when it was passed.
theorem key_of_copy {plain : Step} (hstep : w.Evaluates root step plain)
    (hsteps : ∀ step ∈ steps, takesKey step.kind = true) (hkeeps : w.KeepsKeys root value (step :: steps))
    (hdata : holdsData step.kind = true) {json : Json} {node : Node}
    (hrun : (w.setSteps root value steps (.value json)).run w.scene = (.ok (some node), t)) :
    ({ w with scene := t } : World).stepKey ({ w with scene := t } : World).evaluate root step =
      .ok plain.value := by
  rcases scene_of_copy (noMethod_of_takesKey hsteps) hrun with rfl | hbelow
  · exact hstep.key
  · cases hexcited : step.excited with
    | true => rw [hkeeps [] step steps rfl hexcited hdata t hbelow, hstep.key]
    | false =>
        have hkey := hstep.key
        rw [stepKey_verbatim _ hexcited] at hkey ⊢
        exact hkey

-- Two runs of an edit that end in the same scene, with the same value or with failures of one kind.
def Even {α : Type} (a b : Except AccessError α × Scene) : Prop := Agree a.1 b.1 ∧ a.2 = b.2

theorem Even.of_eq {α : Type} {a b : Except AccessError α × Scene} (h : a = b) : Even a b := by
  cases h
  exact ⟨Agree.refl _, rfl⟩

theorem skippable_evaluated {plain : Step} (hstep : w.Evaluates root step plain)
    (htakes : takesKey step.kind = true)
    (hkey : ({ w with scene := t } : World).stepKey ({ w with scene := t } : World).evaluate root step =
      .ok plain.value) :
    (skippable step (w.setAt root current step value)).run t =
      (skippable plain (w.setAt root current plain value)).run t := by
  rw [skippable_run, skippable_run, setAt_evaluated hstep.kind hstep.verbatim htakes hkey, hstep.conditional]

-- Both runs pass a step alike. If they do the same below it, then they put the same copy back.
theorem setSteps_even_cons {plain next nextPlain : Step} {child : Node}
    (henter : (w.enter root current step).run w.scene = (.ok child, w.scene))
    (henter' : (w.enter root current plain).run w.scene = (.ok child, w.scene))
    (hbelow : Even ((w.setSteps root value (next :: steps) child).run w.scene)
      ((w.setSteps root value (nextPlain :: plains) child).run w.scene))
    (hback : ∀ json t,
      (w.setSteps root value (next :: steps) child).run w.scene = (.ok (some (.value json)), t) →
      (skippable step (w.setAt root current step (.value json))).run t =
        (skippable plain (w.setAt root current plain (.value json))).run t) :
    Even ((w.setSteps root value (step :: next :: steps) current).run w.scene)
      ((w.setSteps root value (plain :: nextPlain :: plains) current).run w.scene) := by
  rw [setSteps_cons, setSteps_cons, henter, henter']
  dsimp only
  generalize hrun : (w.setSteps root value (next :: steps) child).run w.scene = run at hbelow ⊢
  generalize (w.setSteps root value (nextPlain :: plains) child).run w.scene = run' at hbelow ⊢
  obtain ⟨inner, t⟩ := run
  obtain ⟨inner', t'⟩ := run'
  obtain ⟨hinner, rfl⟩ := hbelow
  cases inner with
  | error e =>
      cases inner' with
      | ok node => exact hinner.elim
      | error e' => exact ⟨hinner, rfl⟩
  | ok node =>
      cases inner' with
      | error e => exact hinner.elim
      | ok node' =>
          cases hinner
          cases node with
          | none => exact ⟨rfl, rfl⟩
          | some node =>
              cases node with
              | object h => exact ⟨rfl, rfl⟩
              | value copy => exact Even.of_eq (hback copy t hrun)

theorem setSteps_even (hsteps : List.Forall₂ (w.Evaluates root) steps plains)
    (htakes : ∀ step ∈ steps, takesKey step.kind = true) (hkeeps : w.KeepsKeys root value steps) :
    Even ((w.setSteps root value steps current).run w.scene)
      ((w.setSteps root value plains current).run w.scene) := by
  induction hsteps generalizing current with
  | nil => exact ⟨rfl, rfl⟩
  | @cons step plain rest plains hstep hrest ih =>
      obtain ⟨hkey, hkeys⟩ := List.forall_mem_cons.1 htakes
      cases hrest with
      | nil => exact Even.of_eq (skippable_evaluated hstep hkey hstep.key)
      | @cons next nextPlain rest plains hnext hmore =>
          have hagree : Agree ((w.enter root current step).run w.scene).1
            ((w.enter root current plain).run w.scene).1 := enter_agree hstep hkey
          obtain ⟨result, henter⟩ := (enter_looks w root current step).run_eq w.scene
          obtain ⟨result', henter'⟩ := (enter_looks w root current plain).run_eq w.scene
          rw [henter, henter'] at hagree
          cases result with
          | error e =>
              cases result' with
              | ok child => exact hagree.elim
              | error e' =>
                  rw [setSteps_cons, setSteps_cons, henter, henter', hstep.conditional]
                  cases step.conditional with
                  | true => exact ⟨rfl, rfl⟩
                  | false => exact ⟨hagree, rfl⟩
          | ok child =>
              cases result' with
              | error e => exact hagree.elim
              | ok child' =>
                  cases hagree
                  refine setSteps_even_cons henter henter' (ih hkeys hkeeps.tail) fun json t hrun => ?_
                  have hkind := setSteps_kind (noMethod_of_takesKey hkeys) hrun
                  cases child with
                  | object h => cases hkind
                  | value held =>
                      have hdata := (enter_spec henter).2 rfl
                      exact skippable_evaluated hstep hkey (key_of_copy hstep hkeys hkeeps hdata hrun)

-- A write with excited steps does what it does with their keys in their place, and it fails in the same
-- way, if no write below an object on the way changes a key of a step whose copy is put back later.
theorem set_evaluated (w : World) (root value : Node) {path plain : Path}
    (hsteps : List.Forall₂ (w.Evaluates root) path.steps plain.steps)
    (htakes : ∀ step ∈ path.steps, takesKey step.kind = true) (hkeeps : w.KeepsKeys root value path.steps) :
    let written := w.set root path value
    let direct := w.set root plain value
    written.world = direct.world ∧ written.root = direct.root ∧ Agree written.result direct.result := by
  intro written direct
  have hempty : path.steps = [] ↔ plain.steps = [] := by
    rw [← List.length_eq_zero_iff, hsteps.length_eq, List.length_eq_zero_iff]
  by_cases hnil : path.steps = []
  · have hwritten : written = _ := set_nil hnil
    have hdirect : direct = _ := set_nil (hempty.1 hnil)
    rw [hwritten, hdirect]
    exact ⟨rfl, rfl, Agree.refl _⟩
  · have hwritten : written = _ := set_eq hnil
    have hdirect : direct = _ := set_eq (mt hempty.2 hnil)
    have heven : Even ((w.setSteps root value path.steps root).run w.scene)
      ((w.setSteps root value plain.steps root).run w.scene) := setSteps_even hsteps htakes hkeeps
    rw [hwritten, hdirect]
    generalize (w.setSteps root value path.steps root).run w.scene = run at heven ⊢
    generalize (w.setSteps root value plain.steps root).run w.scene = run' at heven ⊢
    obtain ⟨result, t⟩ := run
    obtain ⟨result', t'⟩ := run'
    obtain ⟨hagree, rfl⟩ := heven
    cases result with
    | error e =>
        cases result' with
        | ok node => exact hagree.elim
        | error e' => exact ⟨rfl, rfl, hagree⟩
    | ok node =>
        cases result' with
        | error e => exact hagree.elim
        | ok node' =>
            cases hagree
            exact ⟨rfl, rfl, rfl⟩

end Runs

-- A component whose field `way` names another of its fields.
section Signpost

def signpost : World where
  scene := { objects := [.component { typeName := "Signpost", fields :=
    [("east", .str "sea"), ("way", .str "east"), ("west", .str "hills")] }] }
  registry := { entries := [("S", { handle := 0 })], names := [(0, "S")] }

def pointed : Step := { kind := .member, value := "\x7b\"_path_\":\"way\"\x7d", excited := true }

def jump : Step := { kind := .object, value := "S" }

def via (first : Step) (last : String) : Path where
  text := ""
  steps := [first, jump, .ofMember last]

theorem pointed_evaluates : signpost.Evaluates (.object 0) pointed (.ofMember "east") where
  kind := rfl
  conditional := rfl
  verbatim := rfl
  key := by decide +kernel

theorem via_evaluates (last : String) :
    List.Forall₂ (signpost.Evaluates (.object 0)) (via pointed last).steps (via (.ofMember "east") last).steps :=
  .cons pointed_evaluates (.cons ⟨rfl, rfl, rfl, rfl⟩ (.cons ⟨rfl, rfl, rfl, rfl⟩ .nil))

theorem via_takesKey (last : String) : ∀ step ∈ (via pointed last).steps, takesKey step.kind = true := by
  simp [via, pointed, jump, Step.ofMember, takesKey]

theorem below_via {last : String} {value : Node} {t : Scene}
    (h : signpost.Below (.object 0) value [jump, .ofMember last] t) :
    ((signpost.setSteps (.object 0) value [.ofMember last] (.object 0)).run signpost.scene).2 = t := by
  obtain ⟨before, first, after, handle, node, heq, hjump, hleads, hrun⟩ := h
  cases before with
  | nil =>
      cases heq
      cases hleads
      rw [hrun]
  | cons other before =>
      have hmem : first ∈ [Step.ofMember last] := by
        rw [(List.cons.inj heq).2]
        exact List.mem_append_right _ List.mem_cons_self
      rw [List.mem_singleton.1 hmem] at hjump
      cases hjump

theorem via_keepsKeys : signpost.KeepsKeys (.object 0) (.value (.str "plain")) (via pointed "west").steps := by
  intro before step rest heq hexcited hdata t hbelow
  cases before with
  | nil =>
      cases heq
      rw [← below_via hbelow]
      decide +kernel
  | cons other before =>
      have hmem : step ∈ [jump, .ofMember "west"] := by
        rw [(List.cons.inj heq).2]
        exact List.mem_append_right _ List.mem_cons_self
      simp only [List.mem_cons, List.not_mem_nil, or_false] at hmem
      rcases hmem with rfl | rfl <;> cases hexcited

theorem set_evaluated_signpost :
    let path := via pointed "west"
    let plain := via (.ofMember "east") "west"
    let value := Node.value (.str "plain")
    List.Forall₂ (signpost.Evaluates (.object 0)) path.steps plain.steps ∧
    (∀ step ∈ path.steps, takesKey step.kind = true) ∧ signpost.KeepsKeys (.object 0) value path.steps ∧
    (signpost.set (.object 0) path value).world = (signpost.set (.object 0) plain value).world ∧
    (signpost.set (.object 0) path value).root = (signpost.set (.object 0) plain value).root ∧
    Agree (signpost.set (.object 0) path value).result (signpost.set (.object 0) plain value).result :=
  ⟨via_evaluates _, via_takesKey _, via_keepsKeys,
    set_evaluated signpost (.object 0) _ (via_evaluates _) (via_takesKey _) via_keepsKeys⟩

-- The name of the field is written below the copy, so the copy is put back into another field.
theorem put_back_elsewhere : ∃ (w : World) (root value : Node) (path plain : Path),
    List.Forall₂ (w.Evaluates root) path.steps plain.steps ∧
    (∀ step ∈ path.steps, takesKey step.kind = true) ∧
    (w.set root path value).result = .ok () ∧ (w.set root plain value).result = .ok () ∧
    (w.set root path value).world ≠ (w.set root plain value).world := by
  refine ⟨signpost, .object 0, .value (.str "west"), via pointed "way", via (.ofMember "east") "way",
    via_evaluates _, via_takesKey _, by decide +kernel, by decide +kernel, fun hsame => ?_⟩
  have hwest := congrArg (fun w => (Cell.get? ⟨0, some "west"⟩ w.scene).bind Json.str?) hsame
  revert hwest
  decide +kernel

end Signpost

end World

end SceneLink
