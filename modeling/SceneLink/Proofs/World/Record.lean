import SceneLink.Proofs.World.Locality

namespace SceneLink

-- A failure without the type of the node where it occurred.
def AccessError.anonymous : AccessError → AccessError
  | noSuchMember name _ => noSuchMember name ""
  | notIndexable _ => notIndexable ""
  | typeMismatch expected _ => typeMismatch expected ""
  | e => e

private theorem mapError_eq {α δ ε : Type} {f : δ → ε} {x y : Except δ α} (h : x.mapError f = y.mapError f) :
    (∃ a, x = .ok a ∧ y = .ok a) ∨ ∃ e e', x = .error e ∧ y = .error e' ∧ f e = f e' := by
  cases x with
  | ok a =>
      cases y with
      | ok b =>
          cases h
          exact .inl ⟨a, rfl, rfl⟩
      | error e => cases h
  | error e =>
      cases y with
      | ok b => cases h
      | error e' => exact .inr ⟨e, e', rfl, rfl, Except.error.inj h⟩

namespace World

structure IsDataStep (step : Step) : Prop where
  data : holdsData step.kind = true
  verbatim : step.excited = false

-- The switch is a member that is not among the fields.
def IsSwitch (step : Step) : Prop := step.kind = .member ∧ step.value = "enabled"

variable {w : World} {root root' current value : Node} {step : Step} {steps : List Step} {s : Scene}
  {h : Handle} {c : Component} {eval : Evaluator}

theorem IsDataStep.descent (hstep : IsDataStep step) : IsDescent step := by
  refine ⟨?_, hstep.verbatim⟩
  have hdata := hstep.data
  cases hkind : step.kind <;> simp_all [holdsData, descends]

section Reading

theorem member?_of_not_switch {name : String} (hname : name ≠ "enabled") (c : Component) :
    c.member? name = c.fields.get? name := if_neg hname

theorem stepFrom_component (hstep : IsDataStep step) (hswitch : ¬IsSwitch step)
    (hread : w.scene.read h = .ok (.component c)) (eval : Evaluator) (root : Node) :
    (w.stepFrom eval root (.object h) step).mapError AccessError.anonymous =
      (w.stepFrom eval root (.value (.obj c.fields)) step).mapError AccessError.anonymous := by
  have hdata := hstep.data
  have hkey (root : Node) : w.stepKey eval root step = .ok step.value := stepKey_verbatim eval hstep.verbatim
  unfold stepFrom
  cases hkind : step.kind with
  | member =>
      have hmember : (Object.component c).member? step.value = c.fields.get? step.value :=
        member?_of_not_switch (fun hname => hswitch ⟨hkind, hname⟩) c
      simp only [hkey, memberOf, hread, bind, Except.bind, hmember]
      cases c.fields.get? step.value <;> rfl
  | map =>
      simp only [hkey, keyedIn, hread, bind, Except.bind]
      rfl
  | index =>
      simp only [hkey, itemOf, hread, bind, Except.bind]
      cases readIndex step.value <;> rfl
  | _ => simp [hkind, holdsData] at hdata

-- Both stop at the same step, or go on from the same data.
theorem walk_component (hsteps : ∀ step ∈ steps, IsDataStep step) (hne : steps ≠ [])
    (hswitch : ∀ step ∈ steps.head?, ¬IsSwitch step) (hread : w.scene.read h = .ok (.component c)) :
    (w.walk w.evaluate root steps (.object h)).mapError AccessError.anonymous =
      (w.walk w.evaluate root' steps (.value (.obj c.fields))).mapError AccessError.anonymous := by
  cases steps with
  | nil => exact absurd rfl hne
  | cons step rest =>
      obtain ⟨hstep, hrest⟩ := List.forall_mem_cons.1 hsteps
      have hfirst := stepFrom_component hstep (hswitch step rfl) hread w.evaluate root
      rw [walk, walk, stepFrom_verbatim hstep.verbatim w w.evaluate w.evaluate root' root (.value _)]
      rcases mapError_eq hfirst with ⟨child, hlive, hplain⟩ | ⟨e, e', hlive, hplain, hkind⟩
      · rw [hlive, hplain]
        exact congrArg _ (walk_verbatim (fun step hmem => (hrest step hmem).verbatim) w _ _ root root' child)
      · rw [hlive, hplain]
        cases step.conditional with
        | true => rfl
        | false => exact congrArg Except.error hkind

end Reading

section Writing

theorem setAt_verbatim (hverbatim : step.excited = false) (w : World) (root root' current value : Node) :
    w.setAt root current step value = w.setAt root' current step value := by
  have hkey : (w.reading fun w => w.stepKey w.evaluate root step) =
      w.reading fun w => w.stepKey w.evaluate root' step :=
    funext fun s => (key_run w root hverbatim s).trans (key_run w root' hverbatim s).symm
  unfold setAt
  rw [hkey]

theorem enter_verbatim (hverbatim : step.excited = false) (w : World) (root root' current : Node) :
    w.enter root current step = w.enter root' current step := by
  have hchild : (w.reading fun w => w.stepFrom w.evaluate root current step) =
      w.reading fun w => w.stepFrom w.evaluate root' current step :=
    funext fun s => Prod.ext (stepFrom_verbatim hverbatim { w with scene := s } _ _ root root' current) rfl
  unfold enter
  rw [hchild]

theorem setSteps_verbatim (hsteps : ∀ step ∈ steps, step.excited = false) (w : World) (root root' current : Node) :
    w.setSteps root value steps current = w.setSteps root' value steps current := by
  induction steps generalizing current with
  | nil => rfl
  | cons step rest ih =>
      obtain ⟨hstep, hrest⟩ := List.forall_mem_cons.1 hsteps
      cases rest with
      | nil => exact congrArg (skippable step) (setAt_verbatim hstep w root root' current value)
      | cons next rest =>
          simp only [setSteps_cons_eq, enter_verbatim hstep w root root' current, ih hrest,
            setAt_verbatim hstep w root root' current]

-- What an edit of one slot leaves in a component, and in the record of its fields.
inductive MirrorsSlot (h : Handle) (c : Component) (s : Scene) :
    Except AccessError Node × Scene → Except AccessError Node × Scene → Prop where
  | written (fields : Dict String Json) : MirrorsSlot h c s
    (.ok (.object h), s.put h (.component { c with fields := fields })) (.ok (.value (.obj fields)), s)
  | failed {e e' : AccessError} (hkind : e.anonymous = e'.anonymous) :
    MirrorsSlot h c s (.error e, s) (.error e', s)

-- The same of a write along a path, which may be skipped in both.
inductive Mirrors (h : Handle) (c : Component) (s : Scene) :
    Except AccessError (Option Node) × Scene → Except AccessError (Option Node) × Scene → Prop where
  | written (fields : Dict String Json) : Mirrors h c s
    (.ok (some (.object h)), s.put h (.component { c with fields := fields }))
    (.ok (some (.value (.obj fields))), s)
  | skipped : Mirrors h c s (.ok none, s) (.ok none, s)
  | failed {e e' : AccessError} (hkind : e.anonymous = e'.anonymous) : Mirrors h c s (.error e, s) (.error e', s)

private theorem mirrors_failure {e e' : AccessError} (hkind : e.anonymous = e'.anonymous) (conditional : Bool) :
    Mirrors h c s (if conditional then (.ok none, s) else (.error e, s))
      (if conditional then (.ok none, s) else (.error e', s)) := by
  cases conditional with
  | true => exact .skipped
  | false => exact .failed hkind

theorem MirrorsSlot.skippable {live plain : Edit Node} (hslot : MirrorsSlot h c s (live.run s) (plain.run s)) :
    Mirrors h c s ((skippable step live).run s) ((skippable step plain).run s) := by
  rw [skippable_run, skippable_run]
  generalize live.run s = liveRun at hslot
  generalize plain.run s = plainRun at hslot
  cases hslot with
  | written fields => exact .written fields
  | failed hkind => exact mirrors_failure hkind _

theorem change_component {change : (Node → String) → Object → Except AccessError Object}
    (hobject : s.writable h = .ok (.component c)) :
    (do Edit.change (·.modify h change); return .object h : Edit Node).run s =
      match change (s.describeWhileWriting h) (.component c) with
      | .ok changed => (.ok (.object h), s.put h changed)
      | .error e => (.error e, s) := by
  have hmodify : s.modify h change = (change (s.describeWhileWriting h) (.component c)).map (s.put h) := by
    unfold Scene.modify
    rw [hobject]
    change (change (s.describeWhileWriting h) (.component c) >>= fun changed => pure (s.put h changed)) = _
    cases change (s.describeWhileWriting h) (.component c) <;> rfl
  rw [Edit.bind_run, Edit.change_run, hmodify]
  cases change (s.describeWhileWriting h) (.component c) <;> rfl

private theorem setMember_mirrors {name : String} (hname : name ≠ "enabled") (hobject : s.writable h = .ok (.component c)) :
    MirrorsSlot h c s ((setMember (.object h) name value).run s)
      ((setMember (.value (.obj c.fields)) name value).run s) := by
  have hlive : (setMember (.object h) name value).run s = _ := change_component hobject
  have hset (found : Node → String) : (Object.component c).setMember found name value =
      (if c.fields.contains name then c.put found name value
        else .error (.noSuchMember name c.typeName)).map Object.component :=
    congrArg (Except.map Object.component) (if_neg hname)
  rw [hlive, hset]
  unfold setMember
  dsimp only
  by_cases hheld : c.fields.contains name = true
  · rw [if_pos hheld, if_pos hheld]
    cases value with
    | value json => exact .written _
    | object other => exact .failed rfl
  · rw [if_neg hheld, if_neg hheld]
    exact .failed rfl

private theorem setKey_mirrors (key : String) (hobject : s.writable h = .ok (.component c)) :
    MirrorsSlot h c s ((setKey (.object h) key value).run s) ((setKey (.value (.obj c.fields)) key value).run s) := by
  have hlive : (setKey (.object h) key value).run s = _ := change_component hobject
  rw [hlive]
  cases value with
  | value json => exact .written _
  | object other => exact .failed rfl

private theorem setItem_mirrors (index : Nat) (hobject : s.writable h = .ok (.component c)) :
    MirrorsSlot h c s ((setItem (.object h) index value).run s)
      ((setItem (.value (.obj c.fields)) index value).run s) := by
  have hlive : (setItem (.object h) index value).run s = _ := change_component hobject
  rw [hlive]
  exact .failed rfl

theorem setAt_mirrors (hstep : IsDataStep step) (hswitch : ¬IsSwitch step)
    (hobject : s.writable h = .ok (.component c)) :
    MirrorsSlot h c s ((w.setAt root (.object h) step value).run s)
      ((w.setAt root' (.value (.obj c.fields)) step value).run s) := by
  have hdata := hstep.data
  have hkey := key_run w root hstep.verbatim s
  have hkey' := key_run w root' hstep.verbatim s
  unfold setAt
  dsimp only
  cases hkind : step.kind with
  | member =>
      dsimp only
      rw [Edit.bind_run, Edit.bind_run, hkey, hkey']
      exact setMember_mirrors (fun hname => hswitch ⟨hkind, hname⟩) hobject
  | map =>
      dsimp only
      rw [Edit.bind_run, Edit.bind_run, hkey, hkey']
      exact setKey_mirrors step.value hobject
  | index =>
      dsimp only
      rw [Edit.bind_run, Edit.bind_run, hkey, hkey']
      dsimp only
      have hindex : (Edit.attempt (readIndex step.value)).run s = (readIndex step.value, s) := rfl
      rw [Edit.bind_run, Edit.bind_run, hindex]
      cases readIndex step.value with
      | ok index => exact setItem_mirrors index hobject
      | error e => exact .failed rfl
  | _ => simp [hkind, holdsData] at hdata

-- Below the first step both write the same copy, for the steps do not ask where their path has started.
theorem setSteps_mirrors (hsteps : ∀ step ∈ steps, IsDataStep step) (hne : steps ≠ [])
    (hswitch : ∀ step ∈ steps.head?, ¬IsSwitch step) (hobject : w.scene.writable h = .ok (.component c)) :
    Mirrors h c w.scene ((w.setSteps root value steps (.object h)).run w.scene)
      ((w.setSteps root' value steps (.value (.obj c.fields))).run w.scene) := by
  have hread : w.scene.read h = .ok (.component c) := by
    obtain ⟨hwrite, hheld⟩ := Scene.writable_eq_ok.1 hobject
    exact Scene.read_eq_ok.2 ⟨Scene.canRead_of_canWrite hwrite, hheld⟩
  cases steps with
  | nil => exact absurd rfl hne
  | cons step rest =>
      obtain ⟨hstep, hrest⟩ := List.forall_mem_cons.1 hsteps
      have hput (v : Node) : Mirrors h c w.scene
          ((skippable step (w.setAt root (.object h) step v)).run w.scene)
          ((skippable step (w.setAt root' (.value (.obj c.fields)) step v)).run w.scene) :=
        (setAt_mirrors hstep (hswitch step rfl) hobject).skippable
      cases rest with
      | nil => exact hput value
      | cons next rest =>
          have hfirst := stepFrom_component hstep (hswitch step rfl) hread w.evaluate root
          have hdescent : ∀ step ∈ next :: rest, IsDescent step := fun step hmem => (hrest step hmem).descent
          rw [setSteps_cons, setSteps_cons, enter_run, enter_run,
            stepFrom_verbatim hstep.verbatim w w.evaluate w.evaluate root' root (.value _)]
          rcases mapError_eq hfirst with ⟨child, hlive, hplain⟩ | ⟨e, e', hlive, hplain, hkind⟩
          · obtain ⟨address, part, -, -, rfl⟩ := (stepFrom_data hstep.descent).1 hplain
            rw [hlive, hplain]
            dsimp only
            rw [if_pos hstep.data]
            dsimp only
            rw [setSteps_verbatim (fun step hmem => (hrest step hmem).verbatim) w root root']
            have hscene := setSteps_sameBut w root' value (.value part) hdescent
            rw [passes_data hdescent] at hscene
            rcases hrun : (w.setSteps root' value (next :: rest) (.value part)).run w.scene with ⟨inner, t⟩
            rw [hrun] at hscene
            cases hscene.eq
            match inner with
            | .error e => exact .failed rfl
            | .ok none => exact .skipped
            | .ok (some (.object other)) => cases setSteps_kind (noMethod_of_descent hdescent) hrun
            | .ok (some (.value copy)) => exact hput (.value copy)
          · rw [hlive, hplain]
            exact mirrors_failure hkind _

end Writing

-- A component that is not in use is read and written as the record of its fields would be, along every path
-- of members, positions and keys that does not begin with the switch. Both lead to the same data, or fail in
-- the same way, and a write leaves the fields of the component as it leaves the record. The switch and the
-- name of the type stay what they are.
theorem component_as_record (w : World) {h : Handle} {c : Component}
    (hc : w.scene.objects[h]? = some (.component c)) {path : Path} (hne : path.steps ≠ [])
    (hpath : ∀ step ∈ path.steps, IsDataStep step) (hswitch : ∀ step ∈ path.steps.head?, ¬IsSwitch step) :
    let record := Node.value (.obj c.fields)
    (w.scene.canRead h = true →
      (w.get (.object h) path).mapError AccessError.anonymous = (w.get record path).mapError AccessError.anonymous) ∧
    (w.scene.canWrite h = true → ∀ value,
      let live := w.set (.object h) path value
      let plain := w.set record path value
      live.result.mapError AccessError.anonymous = plain.result.mapError AccessError.anonymous ∧
      live.root = .object h ∧ plain.world = w ∧
      ∃ fields, plain.root = .value (.obj fields) ∧
        live.world = { w with scene := w.scene.put h (.component { c with fields := fields }) }) := by
  intro record
  refine ⟨fun hread => walk_component hpath hne hswitch (Scene.read_eq_ok.2 ⟨hread, hc⟩),
    fun hwrite value => ?_⟩
  intro live plain
  have hmirrors : Mirrors h c w.scene ((w.setSteps (.object h) value path.steps (.object h)).run w.scene)
      ((w.setSteps record value path.steps record).run w.scene) :=
    setSteps_mirrors hpath hne hswitch (Scene.writable_eq_ok.2 ⟨hwrite, hc⟩)
  have hsame : w.scene.put h (.component { c with fields := c.fields }) = w.scene := by
    obtain ⟨hlt, hget⟩ := List.getElem?_eq_some_iff.1 hc
    unfold Scene.put
    rw [← hget, List.set_getElem_self]
  have hlive : live = _ := set_eq hne
  have hplain : plain = _ := set_eq hne
  rw [hlive, hplain]
  generalize (w.setSteps (.object h) value path.steps (.object h)).run w.scene = liveRun at hmirrors
  generalize (w.setSteps record value path.steps record).run w.scene = plainRun at hmirrors
  cases hmirrors with
  | written fields => exact ⟨rfl, rfl, rfl, fields, rfl, rfl⟩
  | skipped => exact ⟨rfl, rfl, rfl, c.fields, rfl, by rw [hsame]⟩
  | failed hkind => exact ⟨congrArg Except.error hkind, rfl, rfl, c.fields, rfl, by rw [hsame]⟩

-- A board with two marks, and one that is being written by somebody else.
section Board

def board : Component := { typeName := "Board", fields := [("marks", .arr [.str "A", .str "B"])] }

def hung (uses : List (Handle × Usage)) : World where
  scene := { objects := [.component board], uses := uses }

def secondMark : Path where
  text := "marks/1"
  steps := [.ofMember "marks", .ofIndex 1]

theorem secondMark_isDataStep : ∀ step ∈ secondMark.steps, IsDataStep step := by
  intro step hstep
  simp only [secondMark, List.mem_cons, List.not_mem_nil, or_false] at hstep
  rcases hstep with rfl | rfl <;> exact ⟨rfl, rfl⟩

theorem secondMark_not_switch : ∀ step ∈ secondMark.steps.head?, ¬IsSwitch step := by
  intro step hstep hswitch
  cases hstep
  exact absurd hswitch.2 (by decide)

theorem component_as_record_board :
    let record := Node.value (.obj board.fields)
    let live := (hung []).set (.object 0) secondMark (.value (.str "C"))
    let plain := (hung []).set record secondMark (.value (.str "C"))
    (hung []).scene.objects[0]? = some (.component board) ∧ secondMark.steps ≠ [] ∧
    (∀ step ∈ secondMark.steps, IsDataStep step) ∧ (∀ step ∈ secondMark.steps.head?, ¬IsSwitch step) ∧
    ((hung []).get (.object 0) secondMark).mapError AccessError.anonymous =
      ((hung []).get record secondMark).mapError AccessError.anonymous ∧
    live.result = .ok () ∧
    live.result.mapError AccessError.anonymous = plain.result.mapError AccessError.anonymous ∧
    ∃ fields, plain.root = .value (.obj fields) ∧ live.world =
      { hung [] with scene := (hung []).scene.put 0 (.component { board with fields := fields }) } := by
  intro record live plain
  have hc : (hung []).scene.objects[0]? = some (.component board) := rfl
  have hne : secondMark.steps ≠ [] := List.cons_ne_nil _ _
  obtain ⟨hget, hset⟩ := component_as_record (hung []) hc hne secondMark_isDataStep secondMark_not_switch
  obtain ⟨hresult, -, -, hfields⟩ := hset rfl (.value (.str "C"))
  exact ⟨hc, hne, secondMark_isDataStep, secondMark_not_switch, hget rfl, by rfl, hresult, hfields⟩

theorem component_in_use : ∃ (w : World) (h : Handle) (c : Component) (path : Path) (value : Node),
    w.scene.objects[h]? = some (.component c) ∧ path.steps ≠ [] ∧ (∀ step ∈ path.steps, IsDataStep step) ∧
    (∀ step ∈ path.steps.head?, ¬IsSwitch step) ∧
    w.get (.object h) path = .error .objectBusy ∧ w.get (.value (.obj c.fields)) path = .ok (.value (.str "B")) ∧
    (w.set (.object h) path value).result = .error .objectBusy ∧
    (w.set (.value (.obj c.fields)) path value).result = .ok () :=
  ⟨hung [(0, .writing)], 0, board, secondMark, .value (.str "C"), rfl, List.cons_ne_nil _ _, secondMark_isDataStep,
    secondMark_not_switch, by rfl, by rfl, by rfl, by rfl⟩

end Board

end World

end SceneLink
