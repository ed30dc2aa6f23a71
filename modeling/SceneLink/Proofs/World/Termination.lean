import Mathlib.Data.List.MinMax
import SceneLink.Proofs.Expression.Reference
import SceneLink.Proofs.World.Calls

namespace SceneLink

-- A run over a scene that notes each text it evaluates. Where evaluations nest too deep it gives
-- up, and there is no outcome.
abbrev Run (α : Type) := ExceptT AccessError (StateT Scene (OptionT (Logged String))) α

namespace Run

variable {α β : Type} {P : String → Prop}

def outcome? (run : Run α) (s : Scene) : Option (Except AccessError α × Scene) := (run.run s).run.value

def texts (run : Run α) (s : Scene) : List String := (run.run s).run.output

def ofEdit (edit : Edit α) : Run α := fun s => OptionT.mk ⟨some (edit.run s), []⟩

def giveUp : Run α := fun _ => OptionT.mk ⟨none, []⟩

def note (text : String) : Run Unit := fun s => OptionT.mk ⟨some (.ok (), s), [text]⟩

def recast (f : Except AccessError α → Except AccessError β) (run : Run α) : Run β := fun s => do
  let (result, t) ← run.run s
  return (f result, t)

-- A run that comes to an end as the edit does, and evaluates none but certain texts.
def Follows (P : String → Prop) (run : Run α) (edit : Edit α) : Prop :=
  ∀ s, run.outcome? s = some (edit.run s) ∧ ∀ text ∈ run.texts s, P text

section Follows

variable {run : Run α} {edit : Edit α}

theorem follows_ofEdit (edit : Edit α) : Follows P (ofEdit edit) edit := fun _ => ⟨rfl, nofun⟩

theorem follows_pure (a : α) : Follows P (pure a) (pure a) := fun _ => ⟨rfl, nofun⟩

theorem follows_throw (e : AccessError) : Follows P (throw e : Run α) (throw e) := fun _ => ⟨rfl, nofun⟩

theorem bind_run (run : Run α) (f : α → Run β) (s : Scene) :
    (run >>= f).outcome? s = (match run.outcome? s with
      | some (.ok a, t) => (f a).outcome? t
      | some (.error e, t) => some (.error e, t)
      | none => none) ∧
    (run >>= f).texts s = run.texts s ++ (match run.outcome? s with
      | some (.ok a, t) => (f a).texts t
      | _ => []) := by
  have hbind : (run >>= f).run s =
      (run.run s >>= fun out => (ExceptT.bindCont f out.1 : StateT Scene _ _) out.2) := rfl
  unfold outcome? texts
  rw [hbind]
  rcases run.run s with ⟨value, output⟩
  cases value with
  | none => exact ⟨rfl, rfl⟩
  | some out =>
      obtain ⟨result, t⟩ := out
      cases result <;> exact ⟨rfl, rfl⟩

theorem Follows.bind {f : α → Run β} {g : α → Edit β} (h : Follows P run edit)
    (hf : ∀ a, Follows P (f a) (g a)) : Follows P (run >>= f) (edit >>= g) := by
  intro s
  obtain ⟨houtcome, htexts⟩ := h s
  rw [(bind_run run f s).1, (bind_run run f s).2, Edit.bind_run, houtcome]
  rcases edit.run s with ⟨result, t⟩
  cases result with
  | ok a => exact ⟨(hf a t).1, List.forall_mem_append.2 ⟨htexts, (hf a t).2⟩⟩
  | error e => exact ⟨rfl, List.forall_mem_append.2 ⟨htexts, nofun⟩⟩

theorem Follows.recast {f : Except AccessError α → Except AccessError β} {edit' : Edit β}
    (h : Follows P run edit) (hedit : ∀ s, edit'.run s = (f (edit.run s).1, (edit.run s).2)) :
    Follows P (recast f run) edit' := by
  intro s
  obtain ⟨houtcome, htexts⟩ := h s
  have hrun : (Run.recast f run).run s =
      (run.run s >>= fun out => (pure (f out.1, out.2) : OptionT (Logged String) _)) := rfl
  unfold outcome? at houtcome
  unfold texts at htexts
  unfold outcome? texts
  rw [hrun, hedit]
  generalize run.run s = out at houtcome htexts ⊢
  obtain ⟨value, output⟩ := out
  obtain rfl : value = _ := houtcome
  exact ⟨rfl, List.forall_mem_append.2 ⟨htexts, nofun⟩⟩

theorem Follows.note {text : String} (htext : P text) (h : Follows P run edit) :
    Follows P (note text >>= fun _ => run) edit := by
  intro s
  obtain ⟨houtcome, htexts⟩ := h s
  exact ⟨houtcome, List.forall_mem_cons.2 ⟨htext, htexts⟩⟩

end Follows

end Run

def Step.asks (step : Step) : Bool := step.excited && !step.kind.isUnknown

def Step.basis (step : Step) (current : Node) : Node :=
  if step.kind.isLiteral then current else Node.null

def Step.forgive {α : Type} (step : Step) : Except AccessError α → Except AccessError (Option α)
  | .ok a => .ok (some a)
  | .error e => if step.conditional then .ok none else .error e

namespace World

abbrev Interpreter := Node → Node → String → Run Node

-- A step asks for the value of its text at most once, and before all else.
def stepRun (w : World) (interpret : Interpreter) (root current : Node) (step : Step) : Run Node :=
  if step.asks then do
    let node ← interpret root (step.basis current) step.value
    Run.ofEdit (w.reading fun w => w.stepFrom (fun _ _ _ => .ok node) root current step)
  else Run.ofEdit (w.reading fun w => w.stepFrom (fun _ _ _ => .ok Node.null) root current step)

def walkRun (w : World) (interpret : Interpreter) (root : Node) : List Step → Node → Run Node
  | [], current => return current
  | step :: steps, current => do
    match ← Run.recast step.forgive (w.stepRun interpret root current step) with
    | some next => walkRun w interpret root steps next
    | none => return Node.null

def evaluateRun (w : World) : Nat → Interpreter
  | 0, _, _, _ => Run.giveUp
  | depth + 1, root, current, text => do
    Run.note text
    match Expression.ofJson (Json.ofText text) with
    | .error e => throw (.expression e)
    | .ok (.literal json) => return .value json
    | .ok (.reference path) => w.walkRun (evaluateRun w depth) root path.steps root
    | .ok (.change change) => Run.ofEdit <| w.reading fun w => do
      let base ← current.toValue w.scene.describe
      match change.apply base with
      | .ok json => return .value json
      | .error e => throw (.expression e)

def getRun (w : World) (depth : Nat) (root : Node) (path : Path) : Run Node :=
  w.walkRun (w.evaluateRun depth) root path.steps root

def keyRun (w : World) (interpret : Interpreter) (root : Node) (step : Step) : Run String :=
  if step.excited then do
    let node ← interpret root Node.null step.value
    Run.ofEdit (w.reading fun w => node.toValue w.scene.describe >>= keyOf)
  else return step.value

def setAtRun (w : World) (interpret : Interpreter) (root current : Node) (step : Step) (value : Node) :
    Run Node := do
  let key := w.keyRun interpret root step
  match step.kind with
  | .member => Run.ofEdit (setMember current (← key) value)
  | .index => do
    let index ← Run.ofEdit (Edit.attempt (readIndex (← key)))
    Run.ofEdit (setItem current index value)
  | .map => Run.ofEdit (setKey current (← key) value)
  | .method =>
    let method ← key
    Run.ofEdit do
      let h ← w.reading fun w => w.objectFor current step
      let _ ← Edit.call h method (arguments (← Edit.toValue value))
      return current
  | .unknown tag => throw (.unknownStepType tag)
  | kind => throw (.notAssignable kind.name)

def enterRun (w : World) (interpret : Interpreter) (root current : Node) (step : Step) : Run Node := do
  let child ← w.stepRun interpret root current step
  match child with
  | .object _ => return child
  | .value _ => if holdsData step.kind then return child else throw (.notAssignable step.kind.name)

def setStepsRun (w : World) (interpret : Interpreter) (root : Node) (value : Node) :
    List Step → Node → Run (Option Node)
  | [], _ => return none
  | [step], current => Run.recast step.forgive (w.setAtRun interpret root current step value)
  | step :: steps, current => do
    match ← Run.recast step.forgive (w.enterRun interpret root current step) with
    | none => return none
    | some child =>
      match ← setStepsRun w interpret root value steps child with
      | none => return none
      | some (.object _) => return some current
      | some copy => Run.recast step.forgive (w.setAtRun interpret root current step copy)

def setNodeRun (w : World) (depth : Nat) (root : Node) (path : Path) (value : Node) : Run Node :=
  if path.steps = [] then throw (.notAssignable "root")
  else do return (← w.setStepsRun (w.evaluateRun depth) root value path.steps root).getD root

def setRun (w : World) (depth : Nat) (root : Node) (path : Path) (value : Node) : Run (Node × Unit) := do
  return (← w.setNodeRun depth root path value, ())

-- The value before a change, or null for a key that does not exist yet.
def startOf : Except AccessError Node → Except AccessError (Option Node)
  | .ok node => .ok (some node)
  | .error (.noSuchKey _) => .ok none
  | .error e => .error e

def valueRun (w : World) (depth : Nat) (root : Node) (path : Path) : Expression → Run Node
  | .literal json => return .value json
  | .reference source => w.getRun depth root source
  | .change change => do
    let start ← Run.recast startOf (w.getRun depth root path)
    Run.ofEdit <| w.reading fun w => do
      let current ← match start with
        | some node => node.toValue w.scene.describe
        | none => pure .null
      match change.apply current with
      | .ok json => return .value json
      | .error e => throw (.expression e)

def assignRun (w : World) (depth : Nat) (root : Node) (path : Path) (expr : Expression) :
    Run (Node × Node) := do
  let value ← w.valueRun depth root path expr
  return (← w.setNodeRun depth root path value, value)

section Rooms

variable {w : World} {root current : Node} {step : Step} {steps : List Step} {text : String}

theorem stepFrom_eq (w : World) (eval : Evaluator) (root current : Node) (step : Step) :
    w.stepFrom eval root current step =
      if step.asks then
        eval root (step.basis current) step.value >>= fun node =>
          w.stepFrom (fun _ _ _ => .ok node) root current step
      else w.stepFrom (fun _ _ _ => .ok Node.null) root current step := by
  obtain ⟨kind, value, conditional, excited⟩ := step
  cases excited with
  | false => cases kind <;> rfl
  | true =>
      cases kind with
      | unknown tag => rfl
      | literal type =>
          change w.literalAt eval root current _ type = (eval root current value >>= _)
          unfold literalAt
          dsimp only
          cases eval root current value <;> rfl
      | _ =>
          change (w.stepKey eval root _ >>= _) = (eval root Node.null value >>= _)
          unfold stepKey
          dsimp only
          cases eval root Node.null value <;> rfl

theorem walk_congr {eval eval' : Evaluator}
    (h : ∀ step ∈ steps, ∀ root current, eval root current step.value = eval' root current step.value) :
    w.walk eval root steps current = w.walk eval' root steps current := by
  induction steps generalizing current with
  | nil => rfl
  | cons step steps ih =>
      have hstep : w.stepFrom eval root current step = w.stepFrom eval' root current step := by
        rw [stepFrom_eq w eval, stepFrom_eq w eval', h step List.mem_cons_self]
      unfold walk
      rw [hstep]
      cases w.stepFrom eval' root current step with
      | ok next => exact ih fun other hother => h other (List.mem_cons_of_mem _ hother)
      | error e => rfl

theorem evaluateWithin_empty (w : World) (root current : Node) (room : Nat) :
    evaluateWithin room w root current "" = .ok (.value (.str "")) := by
  cases room <;> rfl

-- More room makes no difference: by induction on it, for each reference leads to shorter texts.
theorem evaluateWithin_eq {room room' : Nat} (h : text.length ≤ room) (h' : text.length ≤ room') :
    evaluateWithin room w root current text = evaluateWithin room' w root current text := by
  induction room generalizing room' root current text with
  | zero =>
      have hempty : text = "" := String.length_eq_zero_iff.1 (Nat.le_zero.1 h)
      rw [hempty, evaluateWithin_empty, evaluateWithin_empty]
  | succ room ih =>
      cases room' with
      | zero =>
          have hempty : text = "" := String.length_eq_zero_iff.1 (Nat.le_zero.1 h')
          rw [hempty, evaluateWithin_empty, evaluateWithin_empty]
      | succ room' =>
          unfold evaluateWithin
          cases hexpr : Expression.ofJson (Json.ofText text) with
          | error e => rfl
          | ok expr =>
              cases expr with
              | literal json => rfl
              | change change => rfl
              | reference source =>
                  refine walk_congr fun step hstep root current => ?_
                  have hless := Expression.step_length_lt hexpr hstep
                  exact ih (by omega) (by omega)

theorem evaluate_eq (w : World) (root current : Node) (text : String) :
    w.evaluate root current text = (match Expression.ofJson (Json.ofText text) with
      | .error e => .error (.expression e)
      | .ok (.literal json) => .ok (.value json)
      | .ok (.reference source) => w.get root source
      | .ok (.change change) => do
        let base ← current.toValue w.scene.describe
        match change.apply base with
        | .ok json => return .value json
        | .error e => throw (.expression e)) := by
  have hroom : w.evaluate root current text = evaluateWithin (text.length + 1) w root current text :=
    evaluateWithin_eq (Nat.le_refl _) (Nat.le_succ _)
  rw [hroom]
  unfold evaluateWithin
  cases hexpr : Expression.ofJson (Json.ofText text) with
  | error e => rfl
  | ok expr =>
      cases expr with
      | literal json => rfl
      | change change => rfl
      | reference source =>
          refine walk_congr fun step hstep root current => ?_
          exact evaluateWithin_eq (Nat.le_of_lt (Expression.step_length_lt hexpr hstep)) (Nat.le_refl _)

end Rooms

section Runs

open Run

theorem walk_cons (w : World) (eval : Evaluator) (root current : Node) (step : Step) (steps : List Step) :
    w.walk eval root (step :: steps) current = match w.stepFrom eval root current step with
      | .ok next => w.walk eval root steps next
      | .error e => if step.conditional then .ok Node.null else .error e := rfl

variable {w : World} {P Q : String → Prop} {interpret : Interpreter} {root current value : Node}
  {step : Step} {steps : List Step}

def Interprets (w : World) (P Q : String → Prop) (interpret : Interpreter) : Prop :=
  ∀ root current text, Q text →
    Follows P (interpret root current text) (w.reading fun v => v.evaluate root current text)

theorem stepRun_follows (h : w.Interprets P Q interpret) (hstep : step.excited = true → Q step.value)
    (root current : Node) : Follows P (w.stepRun interpret root current step)
      (w.reading fun v => v.stepFrom v.evaluate root current step) := by
  unfold stepRun
  by_cases hasks : step.asks = true
  · have hexcited : step.excited = true := (Bool.and_eq_true_iff.1 hasks).1
    have hedit : (w.reading fun v => v.stepFrom v.evaluate root current step) =
        w.reading (fun v => v.evaluate root (step.basis current) step.value) >>= fun node =>
          w.reading fun v => v.stepFrom (fun _ _ _ => .ok node) root current step := by
      rw [reading_bind rfl fun _ => rfl]
      refine congrArg w.reading (funext fun v => ?_)
      rw [stepFrom_eq, if_pos hasks]
    rw [if_pos hasks, hedit]
    exact (h _ _ _ (hstep hexcited)).bind fun node => follows_ofEdit _
  · have hedit : (w.reading fun v => v.stepFrom v.evaluate root current step) =
        w.reading fun v => v.stepFrom (fun _ _ _ => .ok Node.null) root current step := by
      refine congrArg w.reading (funext fun v => ?_)
      rw [stepFrom_eq, if_neg hasks]
    rw [if_neg hasks, hedit]
    exact follows_ofEdit _

theorem forgive_run {α : Type} (step : Step) (edit : Edit α) (s : Scene) :
    (skippable step edit).run s = (step.forgive (edit.run s).1, (edit.run s).2) := by
  rw [skippable_run]
  rcases edit.run s with ⟨result, t⟩
  unfold Step.forgive
  cases result with
  | ok a => rfl
  | error e => cases step.conditional <;> rfl

theorem walkRun_follows (h : w.Interprets P Q interpret)
    (hsteps : ∀ step ∈ steps, step.excited = true → Q step.value) (root current : Node) :
    Follows P (w.walkRun interpret root steps current)
      (w.reading fun v => v.walk v.evaluate root steps current) := by
  induction steps generalizing current with
  | nil => exact follows_pure current
  | cons step steps ih =>
      obtain ⟨hstep, hrest⟩ := List.forall_mem_cons.1 hsteps
      have hedit : (w.reading fun v => v.walk v.evaluate root (step :: steps) current) =
          skippable step (w.reading fun v => v.stepFrom v.evaluate root current step) >>= fun
            | some next => w.reading fun v => v.walk v.evaluate root steps next
            | none => pure Node.null := by
        rw [skippable_reading]
        refine edit_ext fun s => ?_
        rw [Edit.bind_run, reading_run, reading_run, walk_cons]
        cases World.stepFrom _ _ root current step with
        | ok next => rfl
        | error e => cases step.conditional <;> rfl
      rw [hedit]
      unfold walkRun
      refine ((stepRun_follows h hstep root current).recast (forgive_run step _)).bind fun found => ?_
      cases found with
      | some next => exact ih hrest next
      | none => exact follows_pure _

-- What holds of a text holds of the excited steps that it refers to.
def Closed (P : String → Prop) : Prop :=
  ∀ {text source step}, P text → Expression.ofJson (Json.ofText text) = .ok (.reference source) →
    step ∈ source.steps → step.excited = true → P step.value

-- By induction on the depth: what a text refers to takes fewer bytes.
theorem evaluateRun_interprets (w : World) (hP : Closed P) (depth : Nat) :
    w.Interprets P (fun text => P text ∧ text.utf8ByteSize < depth) (w.evaluateRun depth) := by
  induction depth with
  | zero => exact fun root current text h => absurd h.2 (Nat.not_lt_zero _)
  | succ depth ih =>
      rintro root current text ⟨htext, hdepth⟩
      unfold evaluateRun
      refine Follows.note htext ?_
      have hedit := congrArg w.reading (funext fun v => evaluate_eq v root current text)
      rw [hedit]
      cases hexpr : Expression.ofJson (Json.ofText text) with
      | error e => exact follows_throw _
      | ok expr =>
          cases expr with
          | literal json => exact follows_pure _
          | change change => exact follows_ofEdit _
          | reference source =>
              obtain ⟨hsource, hvalues⟩ := Expression.reference_shorter hexpr
              refine walkRun_follows ih (fun step hstep hexcited => ?_) root root
              have hvalue := hvalues step hstep
              exact ⟨hP htext hexpr hstep hexcited, by omega⟩

theorem keyRun_follows (h : w.Interprets P Q interpret) (hstep : step.excited = true → Q step.value)
    (root : Node) : Follows P (w.keyRun interpret root step)
      (w.reading fun v => v.stepKey v.evaluate root step) := by
  unfold keyRun
  by_cases hexcited : step.excited = true
  · have hedit : (w.reading fun v => v.stepKey v.evaluate root step) =
        w.reading (fun v => v.evaluate root Node.null step.value) >>= fun node =>
          w.reading fun v => node.toValue v.scene.describe >>= keyOf := by
      rw [reading_bind rfl fun _ => rfl]
      refine congrArg w.reading (funext fun v => ?_)
      unfold stepKey
      rw [if_pos hexcited]
    rw [if_pos hexcited, hedit]
    exact (h _ _ _ (hstep hexcited)).bind fun node => follows_ofEdit _
  · have hedit : (w.reading fun v => v.stepKey v.evaluate root step) = pure step.value := by
      unfold stepKey
      simp only [if_neg hexcited]
      rfl
    rw [if_neg hexcited, hedit]
    exact follows_pure _

theorem setAtRun_follows (h : w.Interprets P Q interpret) (hstep : step.excited = true → Q step.value)
    (root current value : Node) : Follows P (w.setAtRun interpret root current step value)
      (w.setAt root current step value) := by
  have hkey := keyRun_follows h hstep root
  unfold setAtRun setAt
  dsimp only
  cases step.kind with
  | member | map => exact hkey.bind fun _ => follows_ofEdit _
  | index => exact hkey.bind fun _ => (follows_ofEdit _).bind fun _ => follows_ofEdit _
  | method => exact hkey.bind fun _ => follows_ofEdit _
  | _ => exact follows_throw _

theorem enterRun_follows (h : w.Interprets P Q interpret) (hstep : step.excited = true → Q step.value)
    (root current : Node) : Follows P (w.enterRun interpret root current step)
      (w.enter root current step) := by
  refine (stepRun_follows h hstep root current).bind fun child => ?_
  cases child with
  | object handle => exact follows_pure _
  | value json =>
      dsimp only
      cases holdsData step.kind with
      | true => exact follows_pure _
      | false => exact follows_throw _

theorem setStepsRun_follows (h : w.Interprets P Q interpret)
    (hsteps : ∀ step ∈ steps, step.excited = true → Q step.value) (root value current : Node) :
    Follows P (w.setStepsRun interpret root value steps current)
      (w.setSteps root value steps current) := by
  induction steps generalizing current with
  | nil => exact follows_pure none
  | cons step steps ih =>
      obtain ⟨hstep, hrest⟩ := List.forall_mem_cons.1 hsteps
      have hput (copy : Node) := (setAtRun_follows h hstep root current copy).recast (forgive_run step _)
      cases steps with
      | nil => exact hput value
      | cons next steps =>
          unfold setStepsRun setSteps
          refine ((enterRun_follows h hstep root current).recast (forgive_run step _)).bind fun found => ?_
          cases found with
          | none => exact follows_pure none
          | some child =>
              refine (ih hrest child).bind fun result => ?_
              cases result with
              | none => exact follows_pure none
              | some copy =>
                  cases copy with
                  | object handle => exact follows_pure _
                  | value json => exact hput (.value json)

theorem getRun_follows {depth : Nat} {path : Path} (h : w.Interprets P Q (w.evaluateRun depth))
    (hsteps : ∀ step ∈ path.steps, step.excited = true → Q step.value) (root : Node) :
    Follows P (w.getRun depth root path) (w.reading fun v => v.get root path) :=
  walkRun_follows h hsteps root root

theorem setNodeRun_follows {depth : Nat} {path : Path} (h : w.Interprets P Q (w.evaluateRun depth))
    (hsteps : ∀ step ∈ path.steps, step.excited = true → Q step.value) (root value : Node) :
    Follows P (w.setNodeRun depth root path value) (w.setNode root path value) := by
  unfold setNodeRun setNode
  split
  · exact follows_throw _
  · exact (setStepsRun_follows h hsteps root value root).bind fun _ => follows_pure _

def sourceOf : Expression → List Step
  | .reference source => source.steps
  | _ => []

theorem valueRun_follows {depth : Nat} {path : Path} {expr : Expression}
    (h : w.Interprets P Q (w.evaluateRun depth))
    (hsteps : ∀ step ∈ path.steps ++ sourceOf expr, step.excited = true → Q step.value) (root : Node) :
    Follows P (w.valueRun depth root path expr) (w.reading fun v => v.valueOf root path expr) := by
  obtain ⟨hpath, hsource⟩ := List.forall_mem_append.1 hsteps
  cases expr with
  | literal json => exact follows_pure _
  | reference source => exact getRun_follows h hsource root
  | change change =>
      let start : Edit (Option Node) := fun s =>
        (startOf (({ w with scene := s } : World).get root path), s)
      let finish (found : Option Node) : Edit Node := w.reading fun w => do
        let current ← match found with
          | some node => node.toValue w.scene.describe
          | none => pure .null
        match change.apply current with
        | .ok json => return .value json
        | .error e => throw (.expression e)
      have hedit : (w.reading fun v => v.valueOf root path (.change change)) = start >>= finish := by
        refine edit_ext fun s => ?_
        have hstart : start.run s = (startOf (({ w with scene := s } : World).get root path), s) := rfl
        rw [Edit.bind_run, hstart, reading_run]
        unfold valueOf
        cases World.get _ root path with
        | ok node => rfl
        | error e => cases e <;> rfl
      rw [hedit]
      exact ((getRun_follows h hpath root).recast fun s => rfl).bind fun found => follows_ofEdit _

end Runs

-- The texts of excited steps, and of those in the paths that such texts refer to.
inductive Payload (steps : List Step) : String → Prop
  | own {step : Step} (hstep : step ∈ steps) (hexcited : step.excited = true) : Payload steps step.value
  | within {text : String} {source : Path} {step : Step} (htext : Payload steps text)
      (hsource : Expression.ofJson (Json.ofText text) = .ok (.reference source))
      (hstep : step ∈ source.steps) (hexcited : step.excited = true) : Payload steps step.value

def longest (steps : List Step) : Nat := (steps.map (·.value.utf8ByteSize)).foldr max 0

theorem le_longest {steps : List Step} {step : Step} (h : step ∈ steps) :
    step.value.utf8ByteSize ≤ longest steps :=
  List.le_max_of_le' 0 (List.mem_map_of_mem h) (Nat.le_refl _)

def written {α : Type} (w : World) (root : Node) (run : Run (Node × α)) : Option (Written α) :=
  (run.outcome? w.scene).map fun out => w.runEdit root fun _ => out

-- A depth above the number of bytes in the longest value is enough for the steps.
def depthFor (steps : List Step) (more : Nat) : Nat := longest steps + 1 + more

section Ends

open Run

variable {w : World} {root : Node} {path : Path}

theorem payload_interprets (w : World) (steps : List Step) (more : Nat) :
    w.Interprets (Payload steps) (fun text => Payload steps text ∧ text.utf8ByteSize < depthFor steps more)
      (w.evaluateRun (depthFor steps more)) :=
  w.evaluateRun_interprets Payload.within _

theorem payload_own (steps : List Step) (more : Nat) : ∀ step ∈ steps, step.excited = true →
    Payload steps step.value ∧ step.value.utf8ByteSize < depthFor steps more := by
  intro step hstep hexcited
  have hlongest := le_longest hstep
  unfold depthFor
  exact ⟨.own hstep hexcited, by omega⟩

theorem written_of_follows {α : Type} {P : String → Prop} {run : Run (Node × α)} {edit : Edit (Node × α)}
    (h : Follows P run edit) : w.written root run = some (w.runEdit root edit) := by
  unfold written
  rw [(h w.scene).1]
  rfl

end Ends

-- Reading, writing and assigning come to an end, for any world, root, path and value. If
-- evaluations may nest deeper than the longest text in the path has bytes, there is an outcome,
-- which is that of the plain function whatever the depth. All texts that are evaluated on the way
-- stand in the path from the beginning, or in the path that is the source of an assignment, so none
-- was read as data. A path within a text takes fewer bytes than the text.
theorem resolution_terminates (w : World) (root : Node) (path : Path) (more : Nat) :
    (let run := w.getRun (depthFor path.steps more) root path;
      run.outcome? w.scene = some (w.get root path, w.scene) ∧
      ∀ text ∈ run.texts w.scene, Payload path.steps text) ∧
    (∀ value, let run := w.setRun (depthFor path.steps more) root path value
      w.written root run = some (w.set root path value) ∧
      ∀ text ∈ run.texts w.scene, Payload path.steps text) ∧
    (∀ expr, let steps := path.steps ++ sourceOf expr
      let run := w.assignRun (depthFor steps more) root path expr
      w.written root run = some (w.assign root path expr) ∧
      ∀ text ∈ run.texts w.scene, Payload steps text) ∧
    ∀ text source, Expression.ofJson (Json.ofText text) = .ok (.reference source) →
      source.text.utf8ByteSize < text.utf8ByteSize ∧
      ∀ step ∈ source.steps, step.value.utf8ByteSize ≤ source.text.utf8ByteSize := by
  refine ⟨?_, fun value => ?_, fun expr => ?_, fun text source => Expression.reference_shorter⟩
  · exact getRun_follows (w.payload_interprets path.steps more) (payload_own path.steps more) root w.scene
  · intro run
    have hrun : run.Follows (Payload path.steps) (do return (← w.setNode root path value, ())) :=
      (setNodeRun_follows (w.payload_interprets path.steps more) (payload_own path.steps more) root
        value).bind fun _ => Run.follows_pure _
    exact ⟨written_of_follows hrun, (hrun w.scene).2⟩
  · intro steps run
    have hinterprets := w.payload_interprets steps more
    have hown := payload_own steps more
    have hvalue := valueRun_follows hinterprets hown root
    have hrun : run.Follows (Payload steps) (do
        let value ← w.reading fun w => w.valueOf root path expr
        return (← w.setNode root path value, value)) :=
      hvalue.bind fun value =>
        (setNodeRun_follows hinterprets (List.forall_mem_append.1 hown).1 root value).bind fun _ =>
          Run.follows_pure _
    exact ⟨written_of_follows hrun, (hrun w.scene).2⟩

-- The path that a text refers to.
def reference? (text : String) : Option Path :=
  match Expression.ofJson (Json.ofText text) with
  | .ok (.reference source) => some source
  | _ => none

theorem reference?_eq_some {text : String} {source : Path} (h : reference? text = some source) :
    Expression.ofJson (Json.ofText text) = .ok (.reference source) := by
  unfold reference? at h
  split at h
  · next heq =>
    cases h
    exact heq
  · cases h

-- A reference that is spelled with an escape.
theorem resolution_terminates_escaped :
    let text := "\x7b\"_path_\":\"\\u0061/b!\"\x7d"
    let steps : List Step := [.ofMember "a", { kind := .member, value := "b", excited := true }]
    Expression.ofJson (Json.ofText text) = .ok (.reference ⟨"a/b!", steps⟩) ∧
      "a/b!".utf8ByteSize < text.utf8ByteSize ∧
      ∀ step ∈ steps, step.value.utf8ByteSize ≤ "a/b!".utf8ByteSize := by
  intro text steps
  have hreads : Expression.ofJson (Json.ofText text) = .ok (.reference ⟨"a/b!", steps⟩) := by
    have hpath : (reference? text).map (fun source => (source.text, source.steps)) = some ("a/b!", steps) := by
      decide +kernel
    obtain ⟨source, hsource, heq⟩ := Option.map_eq_some_iff.1 hpath
    obtain ⟨htext, hsteps⟩ := Prod.mk.inj heq
    rw [← htext, ← hsteps]
    exact reference?_eq_some hsource
  exact ⟨hreads, (resolution_terminates {} Node.null .here 0).2.2.2 text ⟨"a/b!", steps⟩ hreads⟩

end World

end SceneLink
