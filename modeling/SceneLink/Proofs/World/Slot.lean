import SceneLink.Proofs.Json.Record
import SceneLink.Proofs.World.FailedWrite

namespace SceneLink

-- A place in a value. Reading it may fail, and so may writing it, which makes a new whole.
structure Slot (α β : Type) where
  get : α → Except AccessError β
  put : α → β → Except AccessError α

namespace Slot

section Laws

variable {α β γ : Type}

-- What is written is read, a part that is written back changes nothing, and of two writes the second
-- counts. `wf` are the wholes that the second law is about.
structure Lawful (wf : α → Prop) (slot : Slot α β) : Prop where
  get_put : ∀ {a a' b}, slot.put a b = .ok a' → slot.get a' = .ok b
  put_get : ∀ {a b}, wf a → slot.get a = .ok b → slot.put a b = .ok a
  put_put : ∀ {a a' b}, slot.put a b = .ok a' → ∀ c, ∃ last, slot.put a c = .ok last ∧
    slot.put a' c = .ok last

-- A slot within a slot: the part is taken out, changed and put back.
def within (outer : Slot α β) (inner : Slot β γ) : Slot α γ where
  get a := do inner.get (← outer.get a)
  put a c := do
    let b ← outer.get a
    outer.put a (← inner.put b c)

variable {outer : Slot α β} {inner : Slot β γ}

theorem within_get (a : α) : (outer.within inner).get a = match outer.get a with
    | .ok b => inner.get b
    | .error e => .error e := by
  change (outer.get a >>= inner.get) = _
  cases outer.get a <;> rfl

theorem within_put (a : α) (c : γ) : (outer.within inner).put a c = match outer.get a with
    | .ok b => match inner.put b c with
      | .ok b' => outer.put a b'
      | .error e => .error e
    | .error e => .error e := by
  change (outer.get a >>= fun b => inner.put b c >>= outer.put a) = _
  cases outer.get a with
  | error e => rfl
  | ok b =>
      change (inner.put b c >>= outer.put a) = match inner.put b c with
        | .ok b' => outer.put a b'
        | .error e => .error e
      cases inner.put b c <;> rfl

theorem get_of_within {a : α} {c : γ} (h : (outer.within inner).get a = .ok c) :
    ∃ b, outer.get a = .ok b ∧ inner.get b = .ok c :=
  ok_of_bind h

theorem put_of_within {a a' : α} {c : γ} (h : (outer.within inner).put a c = .ok a') :
    ∃ b b', outer.get a = .ok b ∧ inner.put b c = .ok b' ∧ outer.put a b' = .ok a' := by
  obtain ⟨b, hget, hrest⟩ := ok_of_bind h
  obtain ⟨b', hput, hlast⟩ := ok_of_bind hrest
  exact ⟨b, b', hget, hput, hlast⟩

theorem Lawful.within {wf : α → Prop} {wf' : β → Prop} (ho : outer.Lawful wf) (hi : inner.Lawful wf')
    (hpart : ∀ {a b}, wf a → outer.get a = .ok b → wf' b) : (outer.within inner).Lawful wf where
  get_put h := by
    obtain ⟨b, b', hget, hinner, houter⟩ := put_of_within h
    rw [within_get, ho.get_put houter]
    exact hi.get_put hinner
  put_get hwf h := by
    obtain ⟨b, hget, hinner⟩ := get_of_within h
    rw [within_put, hget]
    dsimp only
    rw [hi.put_get (hpart hwf hget) hinner]
    exact ho.put_get hwf hget
  put_put h c := by
    obtain ⟨b, b', hget, hinner, houter⟩ := put_of_within h
    obtain ⟨part, hfirst, hsecond⟩ := hi.put_put hinner c
    obtain ⟨last, honce, htwice⟩ := ho.put_put houter part
    refine ⟨last, ?_, ?_⟩
    · rw [within_put, hget]
      dsimp only
      rw [hfirst]
      exact honce
    · rw [within_put, ho.get_put houter]
      dsimp only
      rw [hsecond]
      exact htwice

end Laws

section Data

-- A named field of a record. Writing may create it, or needs it to be there.
def ofField (name : String) (creates : Bool) (absent : AccessError) (misfit : Json → AccessError) :
    Slot Json Json where
  get
    | .obj fields => match Dict.get? fields name with
      | some json => .ok json
      | none => .error absent
    | json => .error (misfit json)
  put
    | .obj fields, value =>
      if creates || Dict.contains fields name then .ok (.obj (Dict.insert fields name value))
      else .error absent
    | json, _ => .error (misfit json)

def ofItem (index : Nat) : Slot Json Json where
  get
    | .arr items => match items[index]? with
      | some json => .ok json
      | none => .error (.indexOutOfRange index items.length)
    | json => .error (.notIndexable json.kindName)
  put
    | .arr items, value =>
      if index < items.length then .ok (.arr (items.set index value))
      else .error (.indexOutOfRange index items.length)
    | json, _ => .error (.notIndexable json.kindName)

def refused (e : AccessError) : Slot Json Json where
  get _ := .error e
  put _ _ := .error e

def ofStep (step : Step) : Slot Json Json :=
  match step.kind with
  | .member => ofField step.value false (.noSuchMember step.value "record") fun json =>
      .noSuchMember step.value json.kindName
  | .map => ofField step.value true (.noSuchKey step.value) fun json => .notKeyed json.kindName
  | .index => match World.readIndex step.value with
    | .ok index => ofItem index
    | .error e => refused e
  | kind => refused (.notAssignable kind.name)

-- Without a step the whole is read, and nothing can be written.
def ofSteps : List Step → Slot Json Json
  | [] => ⟨.ok, fun _ _ => .error (.notAssignable "root")⟩
  | [step] => ofStep step
  | step :: next :: rest => (ofStep step).within (ofSteps (next :: rest))

theorem ofField_lawful (name : String) (creates : Bool) (absent : AccessError)
    (misfit : Json → AccessError) : (ofField name creates absent misfit).Lawful Json.Sorted where
  get_put {json json' value} h := by
    cases json with
    | obj fields =>
        unfold ofField at h ⊢
        dsimp only at h ⊢
        split at h
        · cases h
          simp only [Dict.get?_insert, if_true]
        · cases h
    | _ => cases h
  put_get {json value} hsorted h := by
    cases json with
    | obj fields =>
        unfold ofField at h ⊢
        dsimp only at h ⊢
        cases hget : Dict.get? fields name with
        | none =>
            rw [hget] at h
            cases h
        | some found =>
            rw [hget] at h
            cases h
            have hheld : Dict.contains fields name = true := by simp [Dict.contains, hget]
            rw [hheld, Bool.or_true, if_pos rfl, Dict.insert_eq_self hsorted.1 hget]
    | _ => cases h
  put_put {json json' value} h other := by
    cases json with
    | obj fields =>
        unfold ofField at h ⊢
        dsimp only at h ⊢
        split at h
        · next hwritten =>
          cases h
          refine ⟨.obj (Dict.insert fields name other), by rw [if_pos hwritten], ?_⟩
          have hheld : Dict.contains (Dict.insert fields name value) name = true := by
            simp [Dict.contains, Dict.get?_insert]
          dsimp only
          rw [hheld, Bool.or_true, if_pos rfl, Dict.insert_insert]
        · cases h
    | _ => cases h

theorem ofItem_lawful (index : Nat) (wf : Json → Prop) : (ofItem index).Lawful wf where
  get_put {json json' value} h := by
    cases json with
    | arr items =>
        unfold ofItem at h ⊢
        dsimp only at h ⊢
        split at h
        · next hindex =>
          cases h
          simp only [List.getElem?_set_self hindex]
        · cases h
    | _ => cases h
  put_get {json value} _ h := by
    cases json with
    | arr items =>
        unfold ofItem at h ⊢
        dsimp only at h ⊢
        cases hget : items[index]? with
        | none =>
            rw [hget] at h
            cases h
        | some found =>
            rw [hget] at h
            cases h
            obtain ⟨hindex, rfl⟩ := List.getElem?_eq_some_iff.1 hget
            rw [if_pos hindex, List.set_getElem_self]
    | _ => cases h
  put_put {json json' value} h other := by
    cases json with
    | arr items =>
        unfold ofItem at h ⊢
        dsimp only at h ⊢
        split at h
        · next hindex =>
          cases h
          refine ⟨.arr (items.set index other), by rw [if_pos hindex], ?_⟩
          dsimp only
          rw [if_pos (by rwa [List.length_set]), List.set_set]
        · cases h
    | _ => cases h

theorem refused_lawful (e : AccessError) (wf : Json → Prop) : (refused e).Lawful wf where
  get_put h := nomatch h
  put_get _ h := nomatch h
  put_put h := nomatch h

theorem ofStep_lawful (step : Step) : (ofStep step).Lawful Json.Sorted := by
  unfold ofStep
  split
  · exact ofField_lawful _ _ _ _
  · exact ofField_lawful _ _ _ _
  · split
    · exact ofItem_lawful _ _
    · exact refused_lawful _ _
  · exact refused_lawful _ _

theorem sorted_of_ofStep {step : Step} {json part : Json} (hsorted : json.Sorted)
    (h : (ofStep step).get json = .ok part) : part.Sorted := by
  have hfield {name : String} {creates : Bool} {absent : AccessError} {misfit : Json → AccessError}
      (h : (ofField name creates absent misfit).get json = .ok part) : part.Sorted := by
    cases json with
    | obj fields =>
        unfold ofField at h
        dsimp only at h
        cases hget : Dict.get? fields name with
        | none =>
            rw [hget] at h
            cases h
        | some found =>
            rw [hget] at h
            cases h
            exact Json.sorted_of_mem_fields hsorted.2 (Dict.mem_of_get? hget)
    | _ => cases h
  unfold ofStep at h
  split at h
  · exact hfield h
  · exact hfield h
  · split at h
    · next index _ =>
      cases json with
      | arr items =>
          unfold ofItem at h
          dsimp only at h
          cases hget : items[index]? with
          | none =>
              rw [hget] at h
              cases h
          | some found =>
              rw [hget] at h
              cases h
              exact Json.sorted_of_mem_items hsorted (List.mem_of_getElem? hget)
      | _ => cases h
    · cases h
  · cases h

theorem ofSteps_lawful {steps : List Step} (hne : steps ≠ []) :
    (ofSteps steps).Lawful Json.Sorted := by
  induction steps with
  | nil => exact absurd rfl hne
  | cons step rest ih =>
      cases rest with
      | nil => exact ofStep_lawful step
      | cons next rest => exact (ofStep_lawful step).within (ih (List.cons_ne_nil _ _)) sorted_of_ofStep

end Data

end Slot

namespace World

section Paths

variable {json value : Json} {step : Step} {steps : List Step}

-- A step through plain data that is taken as it stands and has to succeed.
structure IsPlainStep (step : Step) : Prop where
  data : holdsData step.kind = true
  verbatim : step.excited = false
  strict : step.conditional = false

theorem stepKey_plain (w : World) (eval : Evaluator) (root : Node) (hstep : IsPlainStep step) :
    w.stepKey eval root step = .ok step.value := by
  unfold stepKey
  rw [hstep.verbatim]
  rfl

private theorem memberOf_value (w : World) (name : String) :
    w.memberOf (.value json) name = ((Slot.ofField name false (.noSuchMember name "record") fun json =>
      .noSuchMember name json.kindName).get json).map Node.value := by
  unfold memberOf Slot.ofField
  cases json with
  | obj fields =>
      dsimp only
      cases Dict.get? fields name <;> rfl
  | _ => rfl

private theorem keyedIn_value (w : World) (key : String) :
    w.keyedIn (.value json) key = ((Slot.ofField key true (.noSuchKey key) fun json =>
      .notKeyed json.kindName).get json).map Node.value := by
  unfold keyedIn Slot.ofField
  cases json with
  | obj fields =>
      dsimp only
      cases Dict.get? fields key <;> rfl
  | _ => rfl

private theorem itemOf_value (w : World) (index : Nat) :
    w.itemOf (.value json) index = ((Slot.ofItem index).get json).map Node.value := by
  unfold itemOf Slot.ofItem
  cases json with
  | arr items =>
      dsimp only
      cases items[index]? <;> rfl
  | _ => rfl

theorem stepFrom_plain (w : World) (eval : Evaluator) (root : Node) (hstep : IsPlainStep step) :
    w.stepFrom eval root (.value json) step = ((Slot.ofStep step).get json).map Node.value := by
  have hkey := stepKey_plain w eval root hstep
  unfold stepFrom Slot.ofStep
  rw [hkey]
  have hdata := hstep.data
  cases hkind : step.kind with
  | member => exact memberOf_value w step.value
  | map => exact keyedIn_value w step.value
  | index =>
      change (readIndex step.value >>= w.itemOf (.value json)) = _
      dsimp only
      cases readIndex step.value with
      | ok index => exact itemOf_value w index
      | error e => rfl
  | _ =>
      rw [hkind] at hdata
      cases hdata

private theorem setMember_value (name : String) (s : Scene) :
    (setMember (.value json) name (.value value)).run s =
      (((Slot.ofField name false (.noSuchMember name "record") fun json =>
        .noSuchMember name json.kindName).put json value).map Node.value, s) := by
  unfold setMember Slot.ofField
  cases json with
  | obj fields =>
      dsimp only
      rw [Bool.false_or]
      split <;> rfl
  | _ => rfl

private theorem setKey_value (key : String) (s : Scene) :
    (setKey (.value json) key (.value value)).run s =
      (((Slot.ofField key true (.noSuchKey key) fun json => .notKeyed json.kindName).put json value).map
        Node.value, s) := by
  unfold setKey Slot.ofField
  cases json <;> rfl

private theorem setItem_value (index : Nat) (s : Scene) :
    (setItem (.value json) index (.value value)).run s =
      (((Slot.ofItem index).put json value).map Node.value, s) := by
  unfold setItem Slot.ofItem
  cases json with
  | arr items =>
      dsimp only
      split <;> rfl
  | _ => rfl

theorem setAt_plain (w : World) (root : Node) (hstep : IsPlainStep step) (s : Scene) :
    (w.setAt root (.value json) step (.value value)).run s =
      (((Slot.ofStep step).put json value).map Node.value, s) := by
  have hkey : (w.reading fun w => w.stepKey w.evaluate root step).run s = (.ok step.value, s) :=
    Prod.ext (stepKey_plain { w with scene := s } _ root hstep) rfl
  have hdata := hstep.data
  unfold setAt Slot.ofStep
  dsimp only
  cases hkind : step.kind with
  | member =>
      dsimp only
      rw [Edit.bind_run, hkey]
      exact setMember_value step.value s
  | map =>
      dsimp only
      rw [Edit.bind_run, hkey]
      exact setKey_value step.value s
  | index =>
      dsimp only
      rw [Edit.bind_run, hkey]
      dsimp only
      have hindex : (Edit.attempt (readIndex step.value)).run s = (readIndex step.value, s) := rfl
      rw [Edit.bind_run, hindex]
      cases readIndex step.value with
      | ok index => exact setItem_value index s
      | error e => rfl
  | _ =>
      rw [hkind] at hdata
      cases hdata

theorem walk_plain (w : World) (eval : Evaluator) (root : Node) (hsteps : ∀ step ∈ steps, IsPlainStep step) :
    w.walk eval root steps (.value json) = ((Slot.ofSteps steps).get json).map Node.value := by
  induction steps generalizing json with
  | nil => rfl
  | cons step rest ih =>
      obtain ⟨hstep, hrest⟩ := List.forall_mem_cons.1 hsteps
      unfold walk
      rw [stepFrom_plain w eval root hstep, hstep.strict]
      cases rest with
      | nil => cases h : (Slot.ofStep step).get json <;> simp [walk, Slot.ofSteps, h, Except.map]
      | cons next rest =>
          rw [Slot.ofSteps, Slot.within_get]
          cases (Slot.ofStep step).get json with
          | error e => rfl
          | ok part => exact ih hrest

theorem enter_plain (w : World) (root : Node) (hstep : IsPlainStep step) (s : Scene) :
    (w.enter root (.value json) step).run s = (((Slot.ofStep step).get json).map Node.value, s) := by
  have hreading : (w.reading fun w => w.stepFrom w.evaluate root (.value json) step).run s =
      (((Slot.ofStep step).get json).map Node.value, s) :=
    Prod.ext (stepFrom_plain { w with scene := s } _ root hstep) rfl
  unfold enter
  rw [Edit.bind_run, hreading]
  cases (Slot.ofStep step).get json with
  | error e => rfl
  | ok part =>
      change (if holdsData step.kind = true then _ else _ : Edit Node).run s = _
      rw [if_pos hstep.data]
      rfl

theorem skippable_strict {α : Type} (hstep : step.conditional = false) (p : Edit α) (s : Scene) :
    (skippable step p).run s = ((p.run s).1.map some, (p.run s).2) := by
  rw [skippable_run, hstep]
  rcases p.run s with ⟨result, t⟩
  cases result <;> rfl

theorem setSteps_plain (w : World) (root : Node) (hsteps : ∀ step ∈ steps, IsPlainStep step)
    (hne : steps ≠ []) (s : Scene) :
    (w.setSteps root (.value value) steps (.value json)).run s =
      (((Slot.ofSteps steps).put json value).map fun json => some (Node.value json), s) := by
  induction steps generalizing json with
  | nil => exact absurd rfl hne
  | cons step rest ih =>
      obtain ⟨hstep, hrest⟩ := List.forall_mem_cons.1 hsteps
      have hput (part : Json) : (skippable step (w.setAt root (.value json) step (.value part))).run s =
          (((Slot.ofStep step).put json part).map fun json => some (Node.value json), s) := by
        rw [skippable_strict hstep.strict, setAt_plain w root hstep]
        cases (Slot.ofStep step).put json part <;> rfl
      cases rest with
      | nil => exact hput value
      | cons next rest =>
          rw [setSteps_cons, enter_plain w root hstep, hstep.strict, Slot.ofSteps, Slot.within_put]
          cases (Slot.ofStep step).get json with
          | error e => rfl
          | ok part =>
              dsimp only [Except.map]
              rw [ih hrest (List.cons_ne_nil _ _)]
              cases (Slot.ofSteps (next :: rest)).put part value with
              | error e => rfl
              | ok changed => exact hput changed

variable {path : Path}

-- A path through plain data alone: members, positions and keys, each taken as it stands.
structure IsPlainPath (path : Path) : Prop where
  nonempty : path.steps ≠ []
  steps : ∀ step ∈ path.steps, IsPlainStep step

theorem get_plain (w : World) (hpath : IsPlainPath path) :
    w.get (.value json) path = ((Slot.ofSteps path.steps).get json).map Node.value :=
  walk_plain w _ _ hpath.steps

theorem set_plain (w : World) (hpath : IsPlainPath path) (json value : Json) :
    w.set (.value json) path (.value value) = match (Slot.ofSteps path.steps).put json value with
      | .ok whole => ⟨w, .value whole, .ok ()⟩
      | .error e => ⟨w, .value json, .error e⟩ := by
  have hsteps : (w.setSteps (.value json) (.value value) path.steps (.value json)).run w.scene = _ :=
    setSteps_plain w (.value json) hpath.steps hpath.nonempty w.scene
  unfold set runEdit setNode
  rw [if_neg hpath.nonempty, Edit.bind_run, Edit.bind_run, hsteps]
  cases (Slot.ofSteps path.steps).put json value <;> rfl

-- Members, positions and keys lead to places in data that obey the laws of a lens: what was written
-- is read back, a value that was read can be written back and changes nothing, and a place that was
-- written can be written again, as if it were for the first time. The world has no part in it.
theorem plain_path_lawful (w : World) {path : Path} (hpath : IsPlainPath path) {json : Json}
    (hjson : json.Sorted) (v u : Json) :
    let written := w.set (.value json) path (.value v)
    (written.result = .ok () → written.world.get written.root path = .ok (.value v)) ∧
    (w.get (.value json) path = .ok (.value v) → written = ⟨w, .value json, .ok ()⟩) ∧
    (written.result = .ok () → ∃ root,
      w.set (.value json) path (.value u) = ⟨w, root, .ok ()⟩ ∧
      written.world.set written.root path (.value u) = ⟨w, root, .ok ()⟩) := by
  have hlawful := Slot.ofSteps_lawful hpath.nonempty
  intro written
  have hwritten : written = _ := set_plain w hpath json v
  refine ⟨fun hok => ?_, fun hget => ?_, fun hok => ?_⟩
  · cases hput : (Slot.ofSteps path.steps).put json v with
    | error e => simp [hwritten, hput] at hok
    | ok whole =>
        rw [hwritten, hput]
        dsimp only
        rw [get_plain w hpath, hlawful.get_put hput]
        rfl
  · rw [get_plain w hpath] at hget
    cases hpart : (Slot.ofSteps path.steps).get json with
    | error e =>
        rw [hpart] at hget
        cases hget
    | ok part =>
        rw [hpart] at hget
        cases hget
        rw [hwritten, hlawful.put_get hjson hpart]
  · cases hput : (Slot.ofSteps path.steps).put json v with
    | error e => simp [hwritten, hput] at hok
    | ok whole =>
        obtain ⟨last, honce, htwice⟩ := hlawful.put_put hput u
        refine ⟨.value last, ?_, ?_⟩
        · rw [set_plain w hpath, honce]
        · rw [hwritten, hput]
          dsimp only
          rw [set_plain w hpath, htwice]

end Paths

section Shelf

def shelf : Json := .obj [("books", .arr [.obj [("title", .str "Emma")]])]

def title : Path where
  text := "books/0/map:title"
  steps := [.ofMember "books", .ofIndex 0, { kind := .map, value := "title" }]

theorem title_isPlainPath : IsPlainPath title where
  nonempty := List.cons_ne_nil _ _
  steps step hstep := by
    simp only [title, List.mem_cons, List.not_mem_nil, or_false] at hstep
    rcases hstep with rfl | rfl | rfl <;> exact ⟨rfl, rfl, rfl⟩

theorem shelf_sorted : shelf.Sorted := by
  simp [shelf, Json.Sorted, Json.SortedFields, Json.SortedItems, Dict.Sorted]

theorem plain_path_lawful_shelf :
    let w : World := {}
    let written := w.set (.value shelf) title (.value (.str "Persuasion"))
    IsPlainPath title ∧ shelf.Sorted ∧
    w.get (.value shelf) title = .ok (.value (.str "Emma")) ∧
    w.set (.value shelf) title (.value (.str "Emma")) = ⟨w, .value shelf, .ok ()⟩ ∧
    written.result = .ok () ∧
    written.world.get written.root title = .ok (.value (.str "Persuasion")) ∧
    ∃ root, w.set (.value shelf) title (.value .null) = ⟨w, root, .ok ()⟩ ∧
      written.world.set written.root title (.value .null) = ⟨w, root, .ok ()⟩ := by
  intro w written
  have hget : w.get (.value shelf) title = .ok (.value (.str "Emma")) := by rfl
  have hok : written.result = .ok () := by rfl
  have hsame := (plain_path_lawful w title_isPlainPath shelf_sorted (.str "Emma") .null).2.1 hget
  obtain ⟨hread, -, hagain⟩ :=
    plain_path_lawful w title_isPlainPath shelf_sorted (.str "Persuasion") .null
  exact ⟨title_isPlainPath, shelf_sorted, hget, hsame, hok, hread hok, hagain hok⟩

end Shelf

end World

end SceneLink
