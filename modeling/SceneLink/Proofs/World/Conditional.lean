import Mathlib.Data.List.Forall2
import SceneLink.Proofs.World.Aliasing

namespace SceneLink

def Step.softened (step : Step) : Step := { step with conditional := true }

def Step.SoftensTo (step soft : Step) : Prop := soft = step ∨ soft = step.softened

-- Some of the steps of a path are made conditional.
def Path.SoftensTo (path soft : Path) : Prop := List.Forall₂ Step.SoftensTo path.steps soft.steps

theorem Step.SoftensTo.conditional {step soft : Step} (h : step.SoftensTo soft) (hstep : step.conditional = true) :
    soft.conditional = true := by
  rcases h with rfl | rfl
  · exact hstep
  · rfl

namespace World

variable {w : World} {root current value node : Node} {step soft : Step} {steps softs : List Step}

section Reading

-- The step of this number is the first that fails when a path is read, and this is its failure.
def FailsAt (w : World) (root : Node) : List Step → Node → Nat → AccessError → Prop
  | [], _, _, _ => False
  | step :: _, current, 0, e => w.stepFrom w.evaluate root current step = .error e
  | step :: steps, current, k + 1, e =>
    ∃ next, w.stepFrom w.evaluate root current step = .ok next ∧ FailsAt w root steps next k e

theorem stepFrom_softened (h : step.SoftensTo soft) (eval : Evaluator) (root current : Node) :
    w.stepFrom eval root current soft = w.stepFrom eval root current step := by
  rcases h with rfl | rfl <;> rfl

theorem walk_softened_ok {eval : Evaluator} (h : List.Forall₂ Step.SoftensTo steps softs)
    (hok : w.walk eval root steps current = .ok node) : w.walk eval root softs current = .ok node := by
  induction h generalizing current with
  | nil => exact hok
  | cons hstep hrest ih =>
      simp only [walk, stepFrom_softened hstep] at hok ⊢
      split at hok
      · next next hnext => simpa only [hnext] using ih hok
      · next e he =>
        split at hok
        · next hconditional => simpa only [he, hstep.conditional hconditional, if_true] using hok
        · cases hok

theorem walk_softened_error {e : AccessError} (h : List.Forall₂ Step.SoftensTo steps softs)
    (herror : w.walk w.evaluate root steps current = .error e) :
    ∃ k soft, w.FailsAt root steps current k e ∧ softs[k]? = some soft ∧
      w.walk w.evaluate root softs current = if soft.conditional then .ok Node.null else .error e := by
  induction h generalizing current with
  | nil => cases herror
  | @cons step soft steps softs hstep hrest ih =>
      rw [walk] at herror
      split at herror
      · next next hnext =>
        obtain ⟨k, last, hfails, hlast, hwalk⟩ := ih herror
        refine ⟨k + 1, last, ⟨next, hnext, hfails⟩, by simpa using hlast, ?_⟩
        simpa only [walk, stepFrom_softened hstep, hnext] using hwalk
      · next cause hcause =>
        split at herror
        · cases herror
        · cases herror
          refine ⟨0, soft, hcause, rfl, ?_⟩
          simp only [walk, stepFrom_softened hstep, hcause]

theorem walk_conditional (hsteps : ∀ step ∈ steps, step.conditional = true) (eval : Evaluator)
    (root current : Node) : ∃ node, w.walk eval root steps current = .ok node := by
  induction steps generalizing current with
  | nil => exact ⟨current, rfl⟩
  | cons step rest ih =>
      obtain ⟨hstep, hrest⟩ := List.forall_mem_cons.1 hsteps
      rw [walk]
      split
      · next next _ => exact ih hrest next
      · exact ⟨Node.null, by rw [hstep, if_pos rfl]⟩

end Reading

section Writing

variable {path : Path}

-- A write that has been made, and one that a conditional step has skipped.
def Writes (w : World) (root : Node) (path : Path) (value : Node) : Prop :=
  ∃ node t, (w.setSteps root value path.steps root).run w.scene = (.ok (some node), t)

def Skips (w : World) (root : Node) (path : Path) (value : Node) : Prop :=
  ∃ t, (w.setSteps root value path.steps root).run w.scene = (.ok none, t)

theorem writes_or_skips (hok : (w.set root path value).result = .ok ()) :
    w.Writes root path value ∨ w.Skips root path value := by
  by_cases hnil : path.steps = []
  · rw [set_nil hnil] at hok
    cases hok
  · rw [set_eq hnil] at hok
    rcases hrun : (w.setSteps root value path.steps root).run w.scene with ⟨result, t⟩
    rw [hrun] at hok
    match result, hok with
    | .ok (some node), _ => exact .inl ⟨node, t, hrun⟩
    | .ok none, _ => exact .inr ⟨t, hrun⟩

theorem Skips.conditional (hskips : w.Skips root path value) (hne : path.steps ≠ []) :
    ∃ step ∈ path.steps, step.conditional = true := by
  obtain ⟨t, hrun⟩ := hskips
  by_contra hnone
  have hstrict : ∀ step ∈ path.steps, step.conditional = false := fun step hstep => by
    simpa using fun hconditional => hnone ⟨step, hstep, hconditional⟩
  obtain ⟨node, hnode⟩ := some_of_setSteps hne hstrict hrun
  cases hnode

-- A run that does the same as another, or skips the write where the other has failed.
def Eases {α : Type} (run eased : Except AccessError (Option α) × Scene) : Prop :=
  eased = run ∨ ∃ e t, run = (.error e, t) ∧ eased = (.ok none, t)

theorem eases_failure {α : Type} (h : step.SoftensTo soft) (e : AccessError) (s : Scene) :
    Eases (if step.conditional then (.ok (none : Option α), s) else (.error e, s))
      (if soft.conditional then (.ok none, s) else (.error e, s)) := by
  rcases h with rfl | rfl
  · exact .inl rfl
  · have hsoft : step.softened.conditional = true := rfl
    rw [if_pos hsoft]
    by_cases hstep : step.conditional = true
    · exact .inl (by rw [if_pos hstep])
    · exact .inr ⟨e, s, by rw [if_neg hstep], rfl⟩

theorem eases_skippable {α : Type} (h : step.SoftensTo soft) (p : Edit α) (s : Scene) :
    Eases ((skippable step p).run s) ((skippable soft p).run s) := by
  rw [skippable_run, skippable_run]
  rcases p.run s with ⟨result, t⟩
  cases result with
  | ok a => exact .inl rfl
  | error e => exact eases_failure h e t

theorem setAt_softened (h : step.SoftensTo soft) (root current value : Node) :
    w.setAt root current soft value = w.setAt root current step value := by
  rcases h with rfl | rfl <;> rfl

theorem enter_softened (h : step.SoftensTo soft) (root current : Node) :
    w.enter root current soft = w.enter root current step := by
  rcases h with rfl | rfl <;> rfl

theorem setSteps_softened (w : World) (root value current : Node) (h : List.Forall₂ Step.SoftensTo steps softs)
    (s : Scene) :
    Eases ((w.setSteps root value steps current).run s) ((w.setSteps root value softs current).run s) := by
  induction h generalizing current with
  | nil => exact .inl rfl
  | @cons step soft rest softs hstep hrest ih =>
      have hput (v : Node) (t : Scene) : Eases ((skippable step (w.setAt root current step v)).run t)
          ((skippable soft (w.setAt root current soft v)).run t) := by
        rw [setAt_softened hstep]
        exact eases_skippable hstep _ t
      cases hrest with
      | nil => exact hput value s
      | cons _ _ =>
          rw [setSteps_cons, setSteps_cons, enter_softened hstep]
          cases ((w.enter root current step).run s).1 with
          | error e => exact eases_failure hstep e s
          | ok child =>
              rcases ih child with hsame | ⟨e, t, hfailed, hskipped⟩
              · dsimp only
                rw [hsame]
                split
                · exact .inl rfl
                · exact .inl rfl
                · exact .inl rfl
                · exact hput _ _
              · exact .inr ⟨e, t, by simp only [hfailed], by simp only [hskipped]⟩

theorem set_softened (w : World) (root value : Node) {soft : Path} (h : path.SoftensTo soft) :
    w.set root soft value = w.set root path value ∨ ∃ e, (w.set root path value).result = .error e ∧
      w.set root soft value = { w.set root path value with result := .ok () } := by
  have hempty : path.steps = [] ↔ soft.steps = [] := by
    rw [← List.length_eq_zero_iff, List.Forall₂.length_eq h, List.length_eq_zero_iff]
  by_cases hnil : path.steps = []
  · exact .inl (by rw [set_nil hnil, set_nil (hempty.1 hnil)])
  · rw [set_eq hnil, set_eq (mt hempty.2 hnil)]
    rcases setSteps_softened w root value root h w.scene with hsame | ⟨e, t, hfailed, hskipped⟩
    · exact .inl (by rw [hsame])
    · exact .inr ⟨e, by rw [hfailed], by rw [hfailed, hskipped]; rfl⟩

theorem Writes.softened {soft : Path} (h : path.SoftensTo soft) (hwrites : w.Writes root path value) :
    w.Writes root soft value := by
  obtain ⟨node, t, hrun⟩ := hwrites
  rcases setSteps_softened w root value root h w.scene with hsame | ⟨e, u, hfailed, -⟩
  · exact ⟨node, t, hsame.trans hrun⟩
  · rw [hrun] at hfailed
    cases hfailed

theorem setSteps_conditional (w : World) (root value current : Node)
    (hsteps : ∀ step ∈ steps, step.conditional = true) (s : Scene) :
    ∃ node, ((w.setSteps root value steps current).run s).1 = .ok node := by
  have hskips {α : Type} {step : Step} (hstep : step.conditional = true) (p : Edit α) (s : Scene) :
      ∃ result, ((skippable step p).run s).1 = .ok result := by
    rw [skippable_run]
    rcases p.run s with ⟨result, t⟩
    cases result with
    | ok a => exact ⟨some a, rfl⟩
    | error e => exact ⟨none, by simp only [hstep, if_true]⟩
  induction steps generalizing current with
  | nil => exact ⟨none, rfl⟩
  | cons step rest ih =>
      obtain ⟨hstep, hrest⟩ := List.forall_mem_cons.1 hsteps
      cases rest with
      | nil => exact hskips hstep _ s
      | cons next rest =>
          rw [setSteps_cons, hstep]
          split
          · exact ⟨none, rfl⟩
          · next child _ =>
            obtain ⟨node, hnode⟩ := ih child hrest
            split
            · next hrun =>
              rw [hrun] at hnode
              cases hnode
            · exact ⟨none, rfl⟩
            · exact ⟨some current, rfl⟩
            · exact hskips hstep _ _

-- On plain data a write that fails has changed nothing.
theorem set_failed_data (hroot : root.isData = true) (hpath : ∀ step ∈ path.steps, holdsData step.kind = true)
    {e : AccessError} (herror : (w.set root path value).result = .error e) :
    w.set root path value = ⟨w, root, .error e⟩ := by
  have hmethod : NoMethod path.steps := fun step hstep hkind => by
    have hdata := hpath step hstep
    rw [hkind] at hdata
    cases hdata
  have hjump : path.steps.Pairwise fun a b => holdsData a.kind = true → isJump b.kind = false := by
    refine List.pairwise_of_forall_mem_list fun a _ b hb _ => ?_
    have hdata := hpath b hb
    cases hkind : b.kind <;> simp_all [holdsData, isJump]
  obtain ⟨hsame, hworld⟩ := (untouched_of_error hmethod hjump).1 e herror
  rcases hwritten : w.set root path value with ⟨world, root', result⟩
  rw [hwritten] at herror hsame hworld
  cases herror
  cases hsame
  cases hworld
  rfl

end Writing

-- Steps that are made conditional keep every success of a path. A failure at the first step that fails
-- becomes null if this step is conditional now, and stays what it is if not. A write on plain data that
-- fails may be skipped instead, and then nothing has changed either.
theorem conditional_softens (w : World) (root : Node) {path soft : Path} (hsoft : path.SoftensTo soft) :
    (∀ node, w.get root path = .ok node → w.get root soft = .ok node) ∧
    (∀ e, w.get root path = .error e → ∃ k step, w.FailsAt root path.steps root k e ∧
      soft.steps[k]? = some step ∧ w.get root soft = if step.conditional then .ok Node.null else .error e) ∧
    ((∀ step ∈ soft.steps, step.conditional = true) → ∃ node, w.get root soft = .ok node) ∧
    (∀ value, (w.set root path value).result = .ok () → w.set root soft value = w.set root path value ∧
      (w.Writes root path value → w.Writes root soft value)) ∧
    (root.isData = true → (∀ step ∈ path.steps, holdsData step.kind = true) →
      ∀ value e, (w.set root path value).result = .error e →
        w.set root soft value = ⟨w, root, .error e⟩ ∨ w.set root soft value = ⟨w, root, .ok ()⟩) ∧
    (soft.steps ≠ [] → (∀ step ∈ soft.steps, step.conditional = true) →
      ∀ value, (w.set root soft value).result = .ok ()) := by
  refine ⟨fun node => walk_softened_ok hsoft, fun e => walk_softened_error hsoft,
    fun hsteps => walk_conditional hsteps _ _ _, fun value hok => ⟨?_, Writes.softened hsoft⟩,
    fun hroot hpath value e herror => ?_, fun hne hsteps value => ?_⟩
  · rcases set_softened w root value hsoft with hsame | ⟨e, herror, -⟩
    · exact hsame
    · rw [hok] at herror
      cases herror
  · have hfailed := set_failed_data hroot hpath herror
    rcases set_softened w root value hsoft with hsame | ⟨-, -, hskipped⟩
    · exact .inl (hsame.trans hfailed)
    · exact .inr (by rw [hskipped, hfailed])
  · obtain ⟨node, hnode⟩ := setSteps_conditional w root value root hsteps w.scene
    rw [set_eq hne]
    rcases hrun : (w.setSteps root value soft.steps root).run w.scene with ⟨result, t⟩
    rw [hrun] at hnode
    cases hnode
    rfl

-- A book that is not on the shelf.
section Missing

def missing : Path where
  text := "books/3/map:title"
  steps := [.ofMember "books", .ofIndex 3, { kind := .map, value := "title" }]

def missed : Path where
  text := "books/3?/map:title"
  steps := [.ofMember "books", (Step.ofIndex 3).softened, { kind := .map, value := "title" }]

def passed : Path where
  text := "books?/3?/map:title?"
  steps := missing.steps.map Step.softened

theorem missing_softensTo_missed : missing.SoftensTo missed :=
  .cons (.inl rfl) (.cons (.inr rfl) (.cons (.inl rfl) .nil))

theorem missing_softensTo_passed : missing.SoftensTo passed :=
  .cons (.inr rfl) (.cons (.inr rfl) (.cons (.inr rfl) .nil))

theorem conditional_softens_missing :
    let w : World := {}
    let root := Node.value shelf
    w.get root missing = .error (.indexOutOfRange 3 1) ∧ missing.SoftensTo missed ∧ missing.SoftensTo passed ∧
    (∃ k step, w.FailsAt root missing.steps root k (.indexOutOfRange 3 1) ∧ missed.steps[k]? = some step ∧
      w.get root missed = if step.conditional then .ok Node.null else .error (.indexOutOfRange 3 1)) ∧
    (w.set root missing .null).result = .error (.indexOutOfRange 3 1) ∧
    (w.set root missed .null = ⟨w, root, .error (.indexOutOfRange 3 1)⟩ ∨
      w.set root missed .null = ⟨w, root, .ok ()⟩) ∧
    (∃ node, w.get root passed = .ok node) ∧ (w.set root passed .null).result = .ok () := by
  intro w root
  have hget : w.get root missing = .error (.indexOutOfRange 3 1) := by rfl
  have hset : (w.set root missing .null).result = .error (.indexOutOfRange 3 1) := by rfl
  have hdata : ∀ step ∈ missing.steps, holdsData step.kind = true := by
    simp [missing, Step.ofMember, Step.ofIndex, holdsData]
  have hpassed : ∀ step ∈ passed.steps, step.conditional = true := by
    simp [passed, missing, Step.softened]
  obtain ⟨-, hfails, -, -, hwrite, -⟩ := conditional_softens w root missing_softensTo_missed
  obtain ⟨-, -, hread, -, -, hwritten⟩ := conditional_softens w root missing_softensTo_passed
  exact ⟨hget, missing_softensTo_missed, missing_softensTo_passed, hfails _ hget, hset,
    hwrite rfl hdata _ _ hset, hread hpassed, hwritten (List.cons_ne_nil _ _) hpassed _⟩

end Missing

end World

end SceneLink
