import SceneLink.Proofs.Scene.Basic
import SceneLink.Proofs.World.FailedWrite
import SceneLink.Proofs.World.Order

namespace SceneLink

namespace Object

theorem target_invoke_nil {object : Object} {method : String} {called : Called Object}
    (h : object.invoke? method [] = some called) : called.target = object := by
  cases object with
  | component c => cases h
  | entity e =>
      obtain ⟨inner, hinner, rfl⟩ := Option.map_eq_some_iff.1 h
      unfold Entity.invoke? at hinner
      split at hinner <;> cases hinner <;> rfl

end Object

theorem Scene.call_nil (s : Scene) (h : Handle) (method : String) : (s.call h method []).scene = s := by
  unfold Scene.call
  cases hwritable : s.writable h with
  | error e => rfl
  | ok object =>
      dsimp only
      cases hinvoke : object.invoke? method [] with
      | none => rfl
      | some called =>
          have hheld : s.objects[h]? = some object := (Scene.writable_eq_ok.1 hwritable).2
          obtain ⟨hh, hobject⟩ := List.getElem?_eq_some_iff.1 hheld
          dsimp only
          rw [Object.target_invoke_nil hinvoke, Scene.put, ← hobject, List.set_getElem_self]

namespace World

abbrev Visitor := Node → Node → String → Edit Node

def visitKey (visitor : Visitor) (root : Node) (step : Step) : Edit String :=
  if step.excited then do
    let node ← visitor root Node.null step.value
    Edit.attempt (keyOf (← Edit.toValue node))
  else return step.value

def visitLiteral (visitor : Visitor) (root current : Node) (step : Step) (type : Literal) : Edit Node :=
  if step.excited then do
    let node ← visitor root current step.value
    let value ← Edit.toValue node
    return .value (← Edit.attempt (type.coerce value))
  else match type.read? step.value with
    | some json => return .value json
    | none => throw (.invalidLiteral type.name step.value)

def visitStep (w : World) (visitor : Visitor) (root current : Node) (step : Step) : Edit Node := do
  let key := visitKey visitor root step
  match step.kind with
  | .member => do
    let name ← key
    w.reading fun w => w.memberOf current name
  | .index => do
    let index ← Edit.attempt (readIndex (← key))
    w.reading fun w => w.itemOf current index
  | .map => do
    let name ← key
    w.reading fun w => w.keyedIn current name
  | .component => do
    let name ← key
    let h ← w.reading fun w => w.objectFor current step
    w.reading fun w => w.componentOf h name
  | .transform => do
    let name ← key
    let h ← w.reading fun w => w.objectFor current step
    w.reading fun w => w.childOf h name
  | .resource => do
    let name ← key
    w.reading fun w => match w.resources.get? name with
      | some node => .ok node
      | none => .error (.noSuchResource name)
  | .object => do
    let id ← key
    w.reading fun w => match w.registry.get? id with
      | some h => .ok (.object h)
      | none => .error (.unknownObject id)
  | .method => do
    let method ← key
    let h ← w.reading fun w => w.objectFor current step
    return .value (← Edit.call h method [])
  | .literal type => visitLiteral visitor root current step type
  | .unknown tag => throw (.unknownStepType tag)

def visitSteps (w : World) (visitor : Visitor) (root : Node) : List Step → Node → Edit Node
  | [], current => return current
  | step :: steps, current => do
    match ← skippable step (w.visitStep visitor root current step) with
    | some next => visitSteps w visitor root steps next
    | none => return Node.null

def visitWithin (w : World) : Nat → Visitor
  | 0, _, _, text => return .value (.str text)
  | room + 1, root, current, text =>
    match Expression.ofJson (Json.ofText text) with
    | .error e => throw (.expression e)
    | .ok (.literal json) => return .value json
    | .ok (.reference path) => w.visitSteps (visitWithin w room) root path.steps root
    | .ok (.change change) => do
      let base ← Edit.toValue current
      match change.apply base with
      | .ok json => return .value json
      | .error e => throw (.expression e)

def visit (w : World) (root : Node) (path : Path) : Edit Node :=
  w.visitSteps (fun root current text => w.visitWithin text.length root current text) root path.steps root

def visitQuery (w : World) (root : Node) : Dict String Path → StateM Scene (Dict String Json)
  | [] => return []
  | (name, path) :: rest => do
    match ← (w.visit root path).run with
    | .ok node => return (name, w.registry.toJson node) :: (← visitQuery w root rest)
    | .error _ => visitQuery w root rest

section Looking

variable {w : World} {α β : Type}

theorem reading_run (w : World) (f : World → Except AccessError α) (s : Scene) :
    (w.reading f).run s = (f { w with scene := s }, s) := rfl

theorem edit_ext {p q : Edit α} (h : ∀ s, p.run s = q.run s) : p = q := funext h

theorem reading_bind {p : Edit α} {f : World → Except AccessError α} {next : α → Edit β}
    {g : World → α → Except AccessError β} (hp : p = w.reading f)
    (hnext : ∀ a, next a = w.reading fun v => g v a) :
    p >>= next = w.reading fun v => f v >>= g v := by
  refine edit_ext fun s => ?_
  rw [Edit.bind_run, hp, reading_run, reading_run]
  cases f { w with scene := s } with
  | error e => rfl
  | ok a =>
      dsimp only
      rw [hnext a]
      rfl

theorem call_reading (w : World) (h : Handle) (method : String) :
    Edit.call h method [] = w.reading fun v => (v.scene.call h method []).result :=
  funext fun s => Prod.ext rfl (s.call_nil h method)

theorem skippable_reading (step : Step) (f : World → Except AccessError α) :
    skippable step (w.reading f) = w.reading fun v => match f v with
      | .ok a => .ok (some a)
      | .error e => if step.conditional then .ok none else .error e := by
  refine edit_ext fun s => ?_
  rw [skippable_run, reading_run, reading_run]
  cases f { w with scene := s } with
  | ok a => rfl
  | error e =>
      dsimp only
      split <;> rfl

end Looking

section Agreement

variable {w : World} {visitor : Visitor} {eval : World → Evaluator}

-- A run that evaluates a text, and the evaluation that it comes to.
def Agrees (w : World) (visitor : Visitor) (eval : World → Evaluator) : Prop :=
  ∀ root current text, visitor root current text = w.reading fun v => eval v root current text

theorem visitKey_eq (h : w.Agrees visitor eval) (root : Node) (step : Step) :
    visitKey visitor root step = w.reading fun v => v.stepKey (eval v) root step := by
  unfold visitKey stepKey
  split
  · exact reading_bind (h _ _ _) fun node => reading_bind rfl fun _ => rfl
  · rfl

theorem visitLiteral_eq (h : w.Agrees visitor eval) (root current : Node) (step : Step) (type : Literal) :
    visitLiteral visitor root current step type =
      w.reading fun v => v.literalAt (eval v) root current step type := by
  unfold visitLiteral literalAt
  split
  · exact reading_bind (h _ _ _) fun node => reading_bind rfl fun _ => reading_bind rfl fun _ => rfl
  · cases type.read? step.value <;> rfl

theorem visitStep_eq (h : w.Agrees visitor eval) (root current : Node) (step : Step) :
    w.visitStep visitor root current step = w.reading fun v => v.stepFrom (eval v) root current step := by
  have hkey := visitKey_eq h root step
  unfold visitStep stepFrom
  dsimp only
  cases step.kind with
  | member | map | resource | object => exact reading_bind hkey fun _ => rfl
  | index | component | transform => exact reading_bind hkey fun _ => reading_bind rfl fun _ => rfl
  | method =>
      refine reading_bind hkey fun method => reading_bind rfl fun handle => ?_
      exact reading_bind (call_reading w handle method) fun _ => rfl
  | literal type => exact visitLiteral_eq h root current step type
  | unknown tag => rfl

theorem visitSteps_eq (h : w.Agrees visitor eval) (root : Node) (steps : List Step) (current : Node) :
    w.visitSteps visitor root steps current = w.reading fun v => v.walk (eval v) root steps current := by
  induction steps generalizing current with
  | nil => rfl
  | cons step steps ih =>
      unfold visitSteps
      rw [visitStep_eq h, skippable_reading]
      refine edit_ext fun s => ?_
      rw [Edit.bind_run, reading_run, reading_run]
      unfold walk
      cases World.stepFrom _ (eval { w with scene := s }) root current step with
      | ok next => exact congrArg (·.run s) (ih next)
      | error e => cases hconditional : step.conditional <;> rfl

-- By induction on the room, for a reference within a text is read with less of it.
theorem visitWithin_eq (w : World) (room : Nat) :
    w.Agrees (w.visitWithin room) fun v => evaluateWithin room v := by
  induction room with
  | zero => exact fun _ _ _ => rfl
  | succ room ih =>
      intro root current text
      simp only [visitWithin, evaluateWithin]
      cases Expression.ofJson (Json.ofText text) with
      | error e => rfl
      | ok expr =>
          cases expr with
          | literal json => rfl
          | reference path => exact visitSteps_eq ih root path.steps root
          | change change =>
              refine reading_bind rfl fun base => ?_
              cases change.apply base <;> rfl

-- A path may be read without a look at the scenes that its steps leave, for there is only one.
theorem visit_eq (w : World) (root : Node) (path : Path) :
    w.visit root path = w.reading fun v => v.get root path :=
  visitSteps_eq (fun root current text => visitWithin_eq w text.length root current text) root path.steps root

theorem visit_run (w : World) (root : Node) (path : Path) :
    (w.visit root path).run w.scene = (w.get root path, w.scene) := by
  rw [visit_eq, reading_run]

theorem visit_eq_ok {root node : Node} {path : Path} :
    (w.visit root path).run w.scene = (.ok node, w.scene) ↔ w.get root path = .ok node := by
  rw [visit_run]
  exact ⟨congrArg Prod.fst, congrArg (·, w.scene)⟩

theorem visitQuery_cons (w : World) (root : Node) (name : String) (path : Path) (rest : Dict String Path)
    (s : Scene) : (w.visitQuery root ((name, path) :: rest)).run s = match (w.visit root path).run s with
      | (.ok node, t) => ((w.visitQuery root rest).run t).map ((name, w.registry.toJson node) :: ·) id
      | (.error _, t) => (w.visitQuery root rest).run t := by
  have hrun : StateT.run (w.visit root path).run s = (w.visit root path).run s := rfl
  rw [visitQuery, StateT.run_bind, hrun]
  rcases (w.visit root path).run s with ⟨result, t⟩
  cases result <;> rfl

theorem visitQuery_run (w : World) (root : Node) (paths : Dict String Path) :
    (w.visitQuery root paths).run w.scene = ((w.query root paths).value, w.scene) := by
  induction paths with
  | nil => rfl
  | cons entry rest ih =>
      obtain ⟨name, path⟩ := entry
      rw [visitQuery_cons, visit_run, query_cons]
      cases w.get root path with
      | error e => exact ih
      | ok node =>
          dsimp only
          rw [ih]
          rfl

-- Each entry of the results is that of one path, whatever the others are.
theorem mem_query {root : Node} {paths : Dict String Path} {name : String} {json : Json} :
    (name, json) ∈ (w.query root paths).value ↔
      ∃ path node, (name, path) ∈ paths ∧ w.get root path = .ok node ∧ json = w.registry.toJson node := by
  induction paths with
  | nil => exact ⟨fun h => (nomatch h), fun ⟨_, _, h, _⟩ => (nomatch h)⟩
  | cons entry rest ih =>
      obtain ⟨other, path⟩ := entry
      rw [query_cons]
      cases hget : w.get root path with
      | error e =>
          dsimp only
          rw [ih]
          constructor
          · rintro ⟨p, node, hmem, hnode⟩
            exact ⟨p, node, List.mem_cons_of_mem _ hmem, hnode⟩
          · rintro ⟨p, node, hmem, hnode, hjson⟩
            rcases List.mem_cons.1 hmem with heq | hmem
            · cases heq
              rw [hget] at hnode
              cases hnode
            · exact ⟨p, node, hmem, hnode, hjson⟩
      | ok found =>
          dsimp only
          rw [List.mem_cons, ih]
          constructor
          · rintro (heq | ⟨p, node, hmem, hnode⟩)
            · cases heq
              exact ⟨path, found, List.mem_cons_self, hget, rfl⟩
            · exact ⟨p, node, List.mem_cons_of_mem _ hmem, hnode⟩
          · rintro ⟨p, node, hmem, hnode, hjson⟩
            rcases List.mem_cons.1 hmem with heq | hmem
            · cases heq
              rw [hget] at hnode
              cases hnode
              exact .inl (hjson ▸ rfl)
            · exact .inr ⟨p, node, hmem, hnode, hjson⟩

end Agreement

end World

end SceneLink
