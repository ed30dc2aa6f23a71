import SceneLink.Proofs.World.Aliasing
import SceneLink.Proofs.World.Excited
import SceneLink.Proofs.World.Preservation

namespace SceneLink

namespace Scene

-- The same scene, but for what stands behind one handle.
structure SameBut (changed : Option Handle) (s t : Scene) : Prop where
  uses : t.uses = s.uses
  length : t.objects.length = s.objects.length
  objects : ∀ h, changed ≠ some h → t.objects[h]? = s.objects[h]?

variable {s t u : Scene} {changed : Option Handle} {h : Handle}

theorem SameBut.refl (changed : Option Handle) (s : Scene) : s.SameBut changed s := ⟨rfl, rfl, fun _ _ => rfl⟩

theorem SameBut.trans (hst : s.SameBut changed t) (htu : t.SameBut changed u) : s.SameBut changed u where
  uses := htu.uses.trans hst.uses
  length := htu.length.trans hst.length
  objects h hne := (htu.objects h hne).trans (hst.objects h hne)

theorem SameBut.eq (hst : s.SameBut none t) : t = s := by
  have hobjects : t.objects = s.objects := List.ext_getElem? fun h => hst.objects h (nomatch ·)
  cases s
  cases t
  cases hobjects
  cases hst.uses
  rfl

theorem SameBut.append {before after : List Handle} (hst : s.SameBut after.getLast? t) :
    s.SameBut (before ++ after).getLast? t := by
  rw [List.getLast?_append]
  cases hlast : after.getLast? with
  | none =>
      rw [hlast] at hst
      rw [hst.eq]
      exact .refl _ s
  | some h =>
      rw [hlast] at hst
      exact hst

theorem modify_sameBut {change : (Node → String) → Object → Except AccessError Object}
    (hmodify : s.modify h change = .ok t) : s.SameBut (some h) t := by
  obtain ⟨object, changed, -, -, -, rfl⟩ := modify_eq_ok hmodify
  refine ⟨rfl, List.length_set, fun other hne => ?_⟩
  rw [objects_put, if_neg fun heq => hne (congrArg some heq)]

end Scene

-- The name or the position that a step addresses in data. Members and keys are both names, and a position
-- may be spelled in several ways.
inductive Address where
  | key (name : String)
  | position (index : Nat)
deriving DecidableEq

def Step.address? (step : Step) : Option Address :=
  match step.kind with
  | .member | .map => some (.key step.value)
  | .index => step.index?.map .position
  | _ => none

def Address.held? : Address → Json → Option Json
  | key name, .obj fields => Dict.get? fields name
  | position index, .arr items => items[index]?
  | _, _ => none

-- Two paths part at a step if they have addressed the same before and address something else there.
def Parts : List Step → List Step → Prop
  | step :: steps, other :: others => step.address? = other.address? → Parts steps others
  | _, _ => False

-- Data where a value has been assigned at an address.
inductive Assigned (value : Json) : Address → Json → Json → Prop where
  | field (fields : Dict String Json) (name : String) :
    Assigned value (.key name) (.obj fields) (.obj (Dict.insert fields name value))
  | item {items : List Json} {index : Nat} (hindex : index < items.length) :
    Assigned value (.position index) (.arr items) (.arr (items.set index value))

theorem Assigned.held? {value json whole : Json} {address : Address} (h : Assigned value address json whole) :
    address.held? whole = some value := by
  cases h with
  | field fields name =>
      change Dict.get? (Dict.insert fields name value) name = some value
      rw [Dict.get?_insert, if_pos rfl]
  | item hindex => exact List.getElem?_set_self hindex

namespace World

def descends : StepKind → Bool
  | .member | .index | .map | .component | .transform => true
  | _ => false

-- A step into its node that is taken as it stands.
structure IsDescent (step : Step) : Prop where
  kind : descends step.kind = true
  verbatim : step.excited = false

-- The objects from which the steps of a path are taken, as far as the path leads.
def passes (w : World) (root : Node) : List Step → Node → List Handle
  | [], _ => []
  | step :: steps, current =>
    current.handle?.toList ++ match w.stepFrom w.evaluate root current step with
      | .ok child => passes w root steps child
      | .error _ => []

variable {w : World} {root current value node child : Node} {json whole : Json} {step other : Step}
  {steps others : List Step} {s t : Scene} {eval : Evaluator}

theorem IsDescent.kind_ne_method (hstep : IsDescent step) : step.kind ≠ .method := by
  intro hmethod
  have hkind := hstep.kind
  rw [hmethod] at hkind
  cases hkind

theorem noMethod_of_descent (hsteps : ∀ step ∈ steps, IsDescent step) : NoMethod steps :=
  fun step hmem => (hsteps step hmem).kind_ne_method

theorem key_run (w : World) (root : Node) (hverbatim : step.excited = false) (s : Scene) :
    (w.reading fun w => w.stepKey w.evaluate root step).run s = (.ok step.value, s) :=
  Prod.ext (stepKey_verbatim _ hverbatim) rfl

section Data

theorem stepFrom_data (hstep : IsDescent step) : w.stepFrom eval root (.value json) step = .ok child ↔
    ∃ address part, step.address? = some address ∧ address.held? json = some part ∧ child = .value part := by
  have hkind := hstep.kind
  unfold stepFrom Step.address?
  rw [stepKey_verbatim eval hstep.verbatim]
  cases hcase : step.kind with
  | member =>
      change w.memberOf (.value json) step.value = _ ↔ _
      unfold memberOf
      cases json with
      | obj fields => cases hget : Dict.get? fields step.value <;> simp [Address.held?, hget, eq_comm]
      | _ => simp [Address.held?]
  | map =>
      change w.keyedIn (.value json) step.value = _ ↔ _
      unfold keyedIn
      cases json with
      | obj fields => cases hget : Dict.get? fields step.value <;> simp [Address.held?, hget, eq_comm]
      | _ => simp [Address.held?]
  | index =>
      change (readIndex step.value >>= w.itemOf (.value json)) = _ ↔ _
      unfold readIndex itemOf Step.index?
      cases Text.index? step.value.toList with
      | none => simp [bind, Except.bind]
      | some index =>
          cases json with
          | arr items => cases hget : items[index]? <;> simp [Address.held?, hget, bind, Except.bind, eq_comm]
          | _ => simp [Address.held?, bind, Except.bind]
  | component | transform => simp [objectFor, bind, Except.bind]
  | _ =>
      rw [hcase] at hkind
      cases hkind

-- What stands beside the address is found in the changed data as before, or is missing as before.
theorem memberOf_of_ne {v : Json} {address : Address} {name : String} (h : Assigned v address json whole)
    (hne : address ≠ .key name) (w : World) : w.memberOf (.value whole) name = w.memberOf (.value json) name := by
  cases h with
  | field fields assigned =>
      have hname : name ≠ assigned := fun heq => hne (congrArg Address.key heq.symm)
      simp only [memberOf, Dict.get?_insert, if_neg hname]
  | item _ => rfl

private theorem keyedIn_of_ne {v : Json} {address : Address} {key : String} (h : Assigned v address json whole)
    (hne : address ≠ .key key) (w : World) : w.keyedIn (.value whole) key = w.keyedIn (.value json) key := by
  cases h with
  | field fields assigned =>
      have hkey : key ≠ assigned := fun heq => hne (congrArg Address.key heq.symm)
      simp only [keyedIn, Dict.get?_insert, if_neg hkey]
  | item _ => rfl

private theorem itemOf_of_ne {v : Json} {address : Address} {index : Nat} (h : Assigned v address json whole)
    (hne : address ≠ .position index) (w : World) : w.itemOf (.value whole) index = w.itemOf (.value json) index := by
  cases h with
  | field fields name => rfl
  | @item items assigned hassigned =>
      have hindex : assigned ≠ index := fun heq => hne (congrArg Address.position heq)
      simp only [itemOf, List.getElem?_set_ne hindex, List.length_set]

theorem stepFrom_of_ne {v : Json} {address : Address} (h : Assigned v address json whole)
    (hother : IsDescent other) (hne : other.address? ≠ some address) (w : World) (eval : Evaluator) (root : Node) :
    w.stepFrom eval root (.value whole) other = w.stepFrom eval root (.value json) other := by
  have hkind := hother.kind
  unfold Step.address? at hne
  unfold stepFrom
  rw [stepKey_verbatim eval hother.verbatim]
  cases hcase : other.kind with
  | member => exact memberOf_of_ne h (fun heq => hne (by rw [hcase, heq])) w
  | map => exact keyedIn_of_ne h (fun heq => hne (by rw [hcase, heq])) w
  | index =>
      change (readIndex other.value >>= w.itemOf _) = (readIndex other.value >>= w.itemOf _)
      unfold readIndex
      cases hread : Text.index? other.value.toList with
      | none => rfl
      | some index =>
          refine itemOf_of_ne h (fun heq => hne ?_) w
          rw [hcase, heq]
          exact congrArg (Option.map Address.position) hread
  | component | transform => cases h <;> rfl
  | _ => simp [hcase, descends] at hkind

private theorem assigned_of_setMember {name : String}
    (h : (setMember (.value json) name value).run s = (.ok node, t)) :
    ∃ v whole, value = .value v ∧ Assigned v (.key name) json whole ∧ node = .value whole := by
  unfold setMember at h
  cases json with
  | obj fields =>
      dsimp only at h
      split at h
      · cases value with
        | value v =>
            cases h
            exact ⟨v, _, rfl, .field fields name, rfl⟩
        | object handle => cases h
      · cases h
  | _ => cases h

private theorem assigned_of_setKey {key : String} (h : (setKey (.value json) key value).run s = (.ok node, t)) :
    ∃ v whole, value = .value v ∧ Assigned v (.key key) json whole ∧ node = .value whole := by
  unfold setKey at h
  cases json with
  | obj fields =>
      cases value with
      | value v =>
          cases h
          exact ⟨v, _, rfl, .field fields key, rfl⟩
      | object handle => cases h
  | _ => cases h

private theorem assigned_of_setItem {index : Nat} (h : (setItem (.value json) index value).run s = (.ok node, t)) :
    ∃ v whole, value = .value v ∧ Assigned v (.position index) json whole ∧ node = .value whole := by
  unfold setItem at h
  cases json with
  | arr items =>
      dsimp only at h
      split at h
      · next hindex =>
        cases value with
        | value v =>
            cases h
            exact ⟨v, _, rfl, .item hindex, rfl⟩
        | object handle => cases h
      · cases h
  | _ => cases h

theorem assigned_of_setAt (hstep : IsDescent step)
    (h : (w.setAt root (.value json) step value).run s = (.ok node, t)) :
    ∃ address v whole, step.address? = some address ∧ value = .value v ∧ Assigned v address json whole ∧
      node = .value whole := by
  have hkind := hstep.kind
  have hkey := key_run w root hstep.verbatim s
  unfold setAt at h
  unfold Step.address?
  dsimp only at h
  cases hcase : step.kind with
  | member =>
      rw [hcase] at h
      dsimp only at h
      rw [Edit.bind_run, hkey] at h
      obtain ⟨v, whole, hassigned⟩ := assigned_of_setMember h
      exact ⟨_, v, whole, rfl, hassigned⟩
  | map =>
      rw [hcase] at h
      dsimp only at h
      rw [Edit.bind_run, hkey] at h
      obtain ⟨v, whole, hassigned⟩ := assigned_of_setKey h
      exact ⟨_, v, whole, rfl, hassigned⟩
  | index =>
      rw [hcase] at h
      dsimp only at h
      rw [Edit.bind_run, hkey] at h
      unfold readIndex at h
      unfold Step.index?
      dsimp only at h
      cases hread : Text.index? step.value.toList with
      | none =>
          rw [hread] at h
          cases h
      | some index =>
          rw [hread] at h
          obtain ⟨v, whole, hassigned⟩ := assigned_of_setItem h
          exact ⟨_, v, whole, rfl, hassigned⟩
  | component | transform =>
      rw [hcase] at h
      cases h
  | _ =>
      rw [hcase] at hkind
      cases hkind

theorem walk_cons_congr (hstep : w.stepFrom eval root (.value whole) other = w.stepFrom eval root (.value json) other) :
    w.walk eval root (other :: others) (.value whole) = w.walk eval root (other :: others) (.value json) := by
  rw [walk, walk, hstep]

-- The induction is on the written path. The other path goes along with it into the same copies, up to the
-- one where it parts.
theorem walk_of_parts (hsteps : ∀ step ∈ steps, IsDescent step)
    (h : (w.setSteps root value steps (.value json)).run w.scene = (.ok (some node), t)) :
    ∃ whole, node = .value whole ∧ ∀ others, (∀ step ∈ others, IsDescent step) → Parts steps others →
      ∀ eval start, w.walk eval start others (.value whole) = w.walk eval start others (.value json) := by
  induction steps generalizing json node t with
  | nil => cases h
  | cons step rest ih =>
      obtain ⟨hstep, hrest⟩ := List.forall_mem_cons.1 hsteps
      cases rest with
      | nil =>
          obtain ⟨address, v, whole, haddress, -, hassigned, rfl⟩ := assigned_of_setAt hstep (skippable_some h)
          refine ⟨whole, rfl, fun others hothers hparts eval start => ?_⟩
          cases others with
          | nil => exact hparts.elim
          | cons other others =>
              have hne : other.address? ≠ some address := fun heq => hparts (haddress.trans heq.symm)
              exact walk_cons_congr (stepFrom_of_ne hassigned (hothers other List.mem_cons_self) hne w eval start)
      | cons next rest =>
          obtain ⟨child, hchild, hdone⟩ := setSteps_ok h
          obtain ⟨address, part, haddress, hpart, rfl⟩ := (stepFrom_data hstep).1 hchild
          rcases hdone with ⟨-, handle, hrun⟩ | ⟨changed, u, hrun, hput⟩
          · cases setSteps_kind (noMethod_of_descent hrest) hrun
          · obtain ⟨changed, hchanged, hbelow⟩ := ih hrest hrun
            cases hchanged
            obtain ⟨address', v, whole, haddress', hvalue, hassigned, rfl⟩ := assigned_of_setAt hstep hput
            cases hvalue
            cases haddress.symm.trans haddress'
            refine ⟨whole, rfl, fun others hothers hparts eval start => ?_⟩
            cases others with
            | nil => exact hparts.elim
            | cons other others =>
                obtain ⟨hother, hothers⟩ := List.forall_mem_cons.1 hothers
                by_cases hsame : other.address? = some address
                · rw [walk_cons_of_ok ((stepFrom_data hother).2 ⟨address, _, hsame, hassigned.held?, rfl⟩),
                    walk_cons_of_ok ((stepFrom_data hother).2 ⟨address, _, hsame, hpart, rfl⟩)]
                  exact hbelow others hothers (hparts (haddress.trans hsame.symm)) eval start
                · exact walk_cons_congr (stepFrom_of_ne hassigned hother hsame w eval start)

end Data

section Objects

theorem passes_data (hsteps : ∀ step ∈ steps, IsDescent step) : w.passes root steps (.value json) = [] := by
  induction steps generalizing json with
  | nil => rfl
  | cons step rest ih =>
      obtain ⟨hstep, hrest⟩ := List.forall_mem_cons.1 hsteps
      rw [passes]
      split
      · next child hchild =>
        obtain ⟨address, part, -, -, rfl⟩ := (stepFrom_data hstep).1 hchild
        exact ih hrest
      · rfl

theorem setAt_sameBut (hstep : IsDescent step) (s : Scene) :
    s.SameBut current.handle? ((w.setAt root current step value).run s).2 := by
  cases current with
  | value json =>
      have hslot : EditsSlot (.value json) (w.setAt root (.value json) step value) :=
        setAt_editsSlot hstep.kind_ne_method
      rw [hslot.looks rfl s]
      exact .refl _ s
  | object h =>
      have hchange {f : Scene → Except AccessError Scene} (hf : ∀ s t, f s = .ok t → s.SameBut (some h) t) :
          Edit.Ensures (s.SameBut (some h)) (fun _ => True)
            (do Edit.change f; return .object h : Edit Node) :=
        (Edit.ensures_change fun t u ht hu => ht.trans (hf t u hu)).bind fun _ _ => Edit.ensures_pure trivial
      suffices hkeeps : Edit.Ensures (s.SameBut (some h)) (fun _ => True) (w.setAt root (.object h) step value) from
        (hkeeps s (.refl _ s)).1
      have hkey : Edit.Ensures (s.SameBut (some h)) (fun _ => True)
          (w.reading fun w => w.stepKey w.evaluate root step) := Edit.ensures_reading fun _ _ _ _ => trivial
      unfold setAt
      dsimp only
      split
      · exact hkey.bind fun name _ => hchange fun _ _ => Scene.modify_sameBut
      · exact hkey.bind fun key _ => (Edit.ensures_attempt fun _ _ => trivial).bind fun index _ =>
          hchange fun _ _ => Scene.modify_sameBut
      · exact hkey.bind fun key _ => hchange fun _ _ => Scene.modify_sameBut
      · next hkind => exact absurd hkind hstep.kind_ne_method
      · exact Edit.ensures_throw _
      · exact Edit.ensures_throw _

theorem skippable_sameBut {changed : Option Handle} {p : Edit Node} (hp : s.SameBut changed (p.run s).2) :
    s.SameBut changed ((skippable step p).run s).2 := by
  rw [skippable_run]
  rcases hrun : p.run s with ⟨result, t⟩
  rw [hrun] at hp
  cases result with
  | ok node => exact hp
  | error e => cases step.conditional <;> exact hp

theorem passes_of_ok (hchild : w.stepFrom w.evaluate root current step = .ok child) :
    w.passes root (step :: steps) current = current.handle?.toList ++ w.passes root steps child := by
  rw [passes, hchild]

theorem passes_last (w : World) (root current : Node) (step : Step) :
    (w.passes root [step] current).getLast? = current.handle? := by
  have hlast : w.passes root [step] current = current.handle?.toList ++ [] := by
    rw [passes]
    split <;> rfl
  rw [hlast]
  cases current <;> rfl

-- Where an object has been changed below a step, no copy is put back, for data leads to no object.
theorem setSteps_sameBut (w : World) (root value current : Node) (hsteps : ∀ step ∈ steps, IsDescent step) :
    w.scene.SameBut (w.passes root steps current).getLast?
      ((w.setSteps root value steps current).run w.scene).2 := by
  induction steps generalizing current with
  | nil => exact .refl _ _
  | cons step rest ih =>
      obtain ⟨hstep, hrest⟩ := List.forall_mem_cons.1 hsteps
      cases rest with
      | nil =>
          rw [passes_last]
          exact skippable_sameBut (setAt_sameBut hstep _)
      | cons next rest =>
          obtain ⟨result, henter⟩ := (enter_looks w root current step).run_eq w.scene
          rw [setSteps_cons, henter]
          cases result with
          | error e => cases step.conditional <;> exact .refl _ _
          | ok child =>
              have hbelow := ih child hrest
              rw [passes_of_ok (enter_spec henter).1]
              dsimp only
              rcases hrun : (w.setSteps root value (next :: rest) child).run w.scene with ⟨inner, t⟩
              rw [hrun] at hbelow
              match inner with
              | .error e => exact hbelow.append
              | .ok none => exact hbelow.append
              | .ok (some (.object _)) => exact hbelow.append
              | .ok (some (.value copy)) =>
                have hkind := setSteps_kind (noMethod_of_descent hrest) hrun
                cases child with
                | object h => cases hkind
                | value part =>
                    rw [passes_data hrest] at hbelow ⊢
                    cases hbelow.eq
                    have hlast : (current.handle?.toList ++ []).getLast? = current.handle? := by
                      cases current <;> rfl
                    rw [hlast]
                    exact skippable_sameBut (setAt_sameBut hstep _)

end Objects

section Paths

theorem stepFrom_verbatim (hverbatim : step.excited = false) (w : World) (eval eval' : Evaluator)
    (root root' current : Node) : w.stepFrom eval root current step = w.stepFrom eval' root' current step := by
  unfold stepFrom literalAt
  rw [stepKey_verbatim eval hverbatim, stepKey_verbatim eval' hverbatim, hverbatim]
  rfl

theorem walk_verbatim (hsteps : ∀ step ∈ steps, step.excited = false) (w : World) (eval eval' : Evaluator)
    (root root' current : Node) : w.walk eval root steps current = w.walk eval' root' steps current := by
  induction steps generalizing current with
  | nil => rfl
  | cons step rest ih =>
      obtain ⟨hstep, hrest⟩ := List.forall_mem_cons.1 hsteps
      rw [walk, walk, stepFrom_verbatim hstep w eval eval' root root' current]
      split
      · next child _ => exact ih hrest child
      · rfl

theorem set_sameBut (w : World) (root value : Node) {path : Path} (hpath : ∀ step ∈ path.steps, IsDescent step) :
    ∃ t, (w.set root path value).world = { w with scene := t } ∧
      w.scene.SameBut (w.passes root path.steps root).getLast? t := by
  by_cases hnil : path.steps = []
  · rw [set_nil hnil]
    exact ⟨w.scene, rfl, .refl _ _⟩
  · have hbelow := setSteps_sameBut w root value root hpath
    rw [set_eq hnil]
    rcases hrun : (w.setSteps root value path.steps root).run w.scene with ⟨result, t⟩
    rw [hrun] at hbelow
    cases result <;> exact ⟨t, rfl, hbelow⟩

theorem get_of_parts {path other : Path} (hpath : ∀ step ∈ path.steps, IsDescent step)
    (hother : ∀ step ∈ other.steps, IsDescent step) (hparts : Parts path.steps other.steps)
    (hok : (w.set (.value json) path value).result = .ok ()) :
    (w.set (.value json) path value).world.get (w.set (.value json) path value).root other =
      w.get (.value json) other := by
  obtain ⟨t, hworld, hscene⟩ := set_sameBut w (.value json) value hpath
  rw [passes_data hpath] at hscene
  cases hscene.eq
  by_cases hnil : path.steps = []
  · rw [hnil] at hparts
    exact hparts.elim
  · rw [set_eq hnil] at hok hworld ⊢
    rcases hrun : (w.setSteps (.value json) value path.steps (.value json)).run w.scene with ⟨result, t⟩
    rw [hrun] at hok hworld
    cases result with
    | error e => cases hok
    | ok result =>
        cases hworld
        cases result with
        | none => rfl
        | some node =>
            obtain ⟨whole, rfl, hsame⟩ := walk_of_parts hpath hrun
            have hverbatim : ∀ step ∈ other.steps, step.excited = false :=
              fun step hmem => (hother step hmem).verbatim
            exact (hsame other.steps hother hparts _ _).trans (walk_verbatim hverbatim w _ _ _ _ _)

end Paths

-- A write that descends by members, positions, keys, components and children changes at most one object,
-- the last one that a step of its path is taken from; it may fail or be skipped. In data, every other
-- such path that addresses something else at some step, after the same names and positions, leads to what
-- it has led to before the write, and fails as it has failed.
theorem write_reaches (w : World) (root value : Node) {path : Path} (hpath : ∀ step ∈ path.steps, IsDescent step) :
    let written := w.set root path value
    (∃ t, written.world = { w with scene := t } ∧
      w.scene.SameBut (w.passes root path.steps root).getLast? t) ∧
    (root.isData = true → written.result = .ok () → ∀ other : Path, (∀ step ∈ other.steps, IsDescent step) →
      Parts path.steps other.steps → written.world.get written.root other = w.get root other) := by
  refine ⟨set_sameBut w root value hpath, fun hroot hok other hother hparts => ?_⟩
  cases root with
  | object h => cases hroot
  | value json => exact get_of_parts hpath hother hparts hok

-- A lamp that is reached through the desk it stands on, and a shelf with one book.
section Desk

def desk : World where
  scene := { objects := [.entity { name := "Desk", components := [1] },
    .component { typeName := "Lamp", fields := [("color", .str "red"), ("mode", .str "on")] }] }

def lampColor : Path where
  text := "component:Lamp/color"
  steps := [{ kind := .component, value := "Lamp" }, .ofMember "color"]

def nextTitle : Path where
  text := "map:books/+1/title"
  steps := [{ kind := .map, value := "books" }, { kind := .index, value := "+1" }, .ofMember "title"]

theorem lampColor_isDescent : ∀ step ∈ lampColor.steps, IsDescent step := by
  intro step hstep
  simp only [lampColor, List.mem_cons, List.not_mem_nil, or_false] at hstep
  rcases hstep with rfl | rfl <;> exact ⟨rfl, rfl⟩

theorem title_isDescent : ∀ step ∈ title.steps, IsDescent step := by
  intro step hstep
  simp only [title, List.mem_cons, List.not_mem_nil, or_false] at hstep
  rcases hstep with rfl | rfl | rfl <;> exact ⟨rfl, rfl⟩

theorem nextTitle_isDescent : ∀ step ∈ nextTitle.steps, IsDescent step := by
  intro step hstep
  simp only [nextTitle, List.mem_cons, List.not_mem_nil, or_false] at hstep
  rcases hstep with rfl | rfl | rfl <;> exact ⟨rfl, rfl⟩

theorem write_reaches_desk :
    let written := desk.set (.object 0) lampColor (.value (.str "blue"))
    let shelved := desk.set (.value shelf) title (.value (.str "Persuasion"))
    desk.passes (.object 0) lampColor.steps (.object 0) = [0, 1] ∧ written.result = .ok () ∧
    (∃ t, written.world = { desk with scene := t } ∧ desk.scene.SameBut (some 1) t) ∧
    shelved.result = .ok () ∧ Parts title.steps nextTitle.steps ∧
    shelved.world.get shelved.root nextTitle = .error (.indexOutOfRange 1 1) := by
  intro written shelved
  have hpasses : desk.passes (.object 0) lampColor.steps (.object 0) = [0, 1] := by rfl
  have hreached := (write_reaches desk (.object 0) (.value (.str "blue")) lampColor_isDescent).1
  rw [hpasses] at hreached
  have hshelved : shelved.result = .ok () := by rfl
  have hparts : Parts title.steps nextTitle.steps := fun _ hindex => absurd hindex (by decide)
  have hsame := (write_reaches desk (.value shelf) (.value (.str "Persuasion")) title_isDescent).2 rfl hshelved
    nextTitle nextTitle_isDescent hparts
  exact ⟨hpasses, by rfl, hreached, hshelved, hparts, hsame.trans (by rfl)⟩

end Desk

end World

end SceneLink
