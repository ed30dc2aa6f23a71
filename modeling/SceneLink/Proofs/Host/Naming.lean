import SceneLink.Proofs.Host.Deeds

namespace SceneLink

namespace Registry

inductive Change where
  | insert (id : String) (h : Handle)
  | remove (id : String)
  | interests (id : String) (change : Dict String InterestSpec → Dict String InterestSpec)

def apply (r : Registry) : Change → Registry
  | .insert id h => match (r.insert id h).value with
    | .ok changed => changed
    | .error _ => r
  | .remove id => r.remove id
  | .interests id change => r.mapInterests id change

def run (changes : List Change) : Registry := changes.foldl apply {}

def Becomes (r s : Registry) : Prop := ∃ changes : List Change, s = changes.foldl apply r

theorem Becomes.apply {r s : Registry} (h : r.Becomes s) (c : Change) : r.Becomes (s.apply c) := by
  obtain ⟨changes, rfl⟩ := h
  refine ⟨changes ++ [c], ?_⟩
  rw [List.foldl_append]
  rfl

section Step

variable {r : Registry}

theorem apply_insert_held {id : String} (hheld : r.contains id = true) (h : Handle) :
    r.apply (.insert id h) = r := by
  have hvalue : (r.insert id h).value = .error (.duplicateObject id) := by
    unfold insert
    rw [if_pos hheld]
    rfl
  unfold apply
  dsimp only
  rw [hvalue]

theorem apply_insert_fresh {id : String} (hfresh : r.contains id = false) (h : Handle) :
    r.apply (.insert id h) =
      { entries := r.entries.insert id { handle := h }, names := r.names.insert h id } := by
  have hvalue : (r.insert id h).value =
      .ok { entries := r.entries.insert id { handle := h }, names := r.names.insert h id } := by
    unfold insert
    rw [if_neg (by simp [hfresh])]
    rfl
  unfold apply
  dsimp only
  rw [hvalue]

theorem get?_apply (r : Registry) (c : Change) (other : String) : (r.apply c).get? other = match c with
    | .insert id h => if r.contains id = false ∧ other = id then some h else r.get? other
    | .remove id => if other = id then none else r.get? other
    | .interests _ _ => r.get? other := by
  cases c with
  | insert id h =>
      dsimp only
      cases hid : r.contains id with
      | true => simp [apply_insert_held hid]
      | false =>
          rw [apply_insert_fresh hid]
          change (Dict.get? (Dict.insert _ _ _) other).map _ = _
          rw [Dict.get?_insert]
          split
          · next heq => simp [heq]
          · next hne => simp [hne, get?]
  | remove id =>
      change ((r.remove id).entries.get? other).map _ = _
      rw [Host.get?_remove]
      dsimp only
      split <;> rfl
  | interests id change =>
      change ((r.mapInterests id change).entries.get? other).map _ = _
      rw [Host.get?_mapInterests]
      split
      · next heq =>
        rw [heq, Option.map_map]
        rfl
      · rfl

theorem idOf?_apply (r : Registry) (c : Change) (h : Handle) : (r.apply c).idOf? h = match c with
    | .insert id g => if r.contains id = false ∧ g = h then some id else r.idOf? h
    | .remove id => if r.get? id = some h then none else r.idOf? h
    | .interests _ _ => r.idOf? h := by
  cases c with
  | insert id g =>
      dsimp only
      cases hid : r.contains id with
      | true => simp [apply_insert_held hid]
      | false =>
          rw [apply_insert_fresh hid]
          change Dict.get? (Dict.insert _ _ _) h = _
          rw [Dict.get?_insert]
          simp only [true_and, eq_comm (a := h)]
          rfl
  | remove id =>
      change (r.remove id).idOf? h = if (r.entries.get? id).map (·.handle) = some h then none else _
      unfold remove
      cases r.entries.get? id with
      | none => rfl
      | some entry =>
          change Dict.get? (Dict.erase _ _) h = _
          rw [Dict.get?_erase]
          simp only [Option.map_some, Option.some.injEq, eq_comm (a := h)]
          rfl
  | interests id change =>
      change (r.mapInterests id change).idOf? h = _
      unfold mapInterests
      cases r.entries.get? id <;> rfl

end Step

section Naming

variable {r : Registry}

theorem contains_eq (r : Registry) (id : String) : r.contains id = (r.get? id).isSome :=
  Option.isSome_map.symm

theorem contains_of_get? {id : String} {h : Handle} (hid : r.get? id = some h) : r.contains id = true := by
  rw [contains_eq, hid]
  rfl

-- Every name leads back to the object that is reported by it.
def Truthful (r : Registry) : Prop := ∀ h id, r.idOf? h = some id → r.get? id = some h

theorem Truthful.apply (hr : r.Truthful) (c : Change) : (r.apply c).Truthful := by
  intro h name hname
  rw [idOf?_apply] at hname
  rw [get?_apply]
  cases c with
  | insert id g =>
      dsimp only at hname ⊢
      by_cases hnew : r.contains id = false ∧ g = h
      · rw [if_pos hnew] at hname
        cases hname
        rw [if_pos ⟨hnew.1, rfl⟩, hnew.2]
      · rw [if_neg hnew] at hname
        have hheld := hr h name hname
        have hne : ¬(r.contains id = false ∧ name = id) := by
          rintro ⟨hfresh, rfl⟩
          rw [contains_eq, hheld] at hfresh
          cases hfresh
        rw [if_neg hne, hheld]
  | remove id =>
      dsimp only at hname ⊢
      by_cases htaken : r.get? id = some h
      · rw [if_pos htaken] at hname
        cases hname
      · rw [if_neg htaken] at hname
        have hheld := hr h name hname
        have hne : name ≠ id := fun heq => htaken (heq ▸ hheld)
        rw [if_neg hne, hheld]
  | interests => exact hr h name hname

theorem run_truthful (changes : List Change) : (run changes).Truthful :=
  List.foldlRecOn changes apply (fun _ _ h => nomatch h) fun _ hr c _ => hr.apply c

end Naming

theorem toJson_object (r : Registry) (h : Handle) :
    r.toJson (.object h) = ((r.idOf? h).map Json.str).getD .null := by
  unfold toJson
  dsimp only
  cases r.idOf? h <;> rfl

-- What data says of a node: plain data is given as it is, and an object by null or by an identifier
-- that leads to it.
def Identifies (r : Registry) (json : Json) : Node → Prop
  | .value held => json = held
  | .object h => json = .null ∨ ∃ id, json = .str id ∧ r.contains id = true ∧ r.get? id = some h

theorem Truthful.identifies {r : Registry} (hr : r.Truthful) (node : Node) : r.Identifies (r.toJson node) node := by
  cases node with
  | value json => rfl
  | object h =>
      unfold Identifies
      rw [toJson_object]
      cases hname : r.idOf? h with
      | none => exact .inl rfl
      | some id =>
          have hget := hr h id hname
          exact .inr ⟨id, rfl, contains_of_get? hget, hget⟩

section Unnamed

variable {r : Registry} {h : Handle}

def Concerns (r : Registry) (h : Handle) : Change → Prop
  | .insert id g => r.contains id = false ∧ g = h
  | .remove id => r.get? id = some h
  | .interests _ _ => False

instance (r : Registry) (h : Handle) (c : Change) : Decidable (r.Concerns h c) := by
  cases c <;> unfold Concerns <;> infer_instance

-- The last of a series of changes that gives the object an identifier or takes one from it.
def lastOn (h : Handle) : Registry → List Change → Option Change
  | _, [] => none
  | r, c :: rest => (lastOn h (r.apply c) rest).or (if r.Concerns h c then some c else none)

def Change.name? : Change → Option String
  | .insert id _ => some id
  | _ => none

theorem idOf?_of_concerns {c : Change} (hc : r.Concerns h c) : (r.apply c).idOf? h = c.name? := by
  rw [idOf?_apply]
  cases c with
  | insert id g => exact if_pos hc
  | remove id => exact if_pos hc
  | interests => exact hc.elim

theorem idOf?_of_not_concerns {c : Change} (hc : ¬r.Concerns h c) : (r.apply c).idOf? h = r.idOf? h := by
  rw [idOf?_apply]
  cases c with
  | insert id g => exact if_neg hc
  | remove id => exact if_neg hc
  | interests => rfl

-- An object is reported by the identifier that it was given last, unless it has lost one since.
theorem idOf?_foldl (h : Handle) (r : Registry) (changes : List Change) :
    (changes.foldl apply r).idOf? h = match lastOn h r changes with
      | none => r.idOf? h
      | some c => c.name? := by
  induction changes generalizing r with
  | nil => rfl
  | cons c rest ih =>
      rw [List.foldl_cons, ih, lastOn]
      cases hlast : lastOn h (r.apply c) rest with
      | some later => rfl
      | none =>
          rw [Option.none_or]
          by_cases hc : r.Concerns h c
          · rw [if_pos hc, idOf?_of_concerns hc]
          · rw [if_neg hc, idOf?_of_not_concerns hc]

theorem get?_of_not_concerns {c : Change} (hc : ¬r.Concerns h c) {id : String}
    (hid : (r.apply c).get? id = some h) : r.get? id = some h := by
  rw [get?_apply] at hid
  cases c with
  | insert other g =>
      dsimp only at hid
      split at hid
      · next hnew => exact absurd ⟨hnew.1, Option.some.inj hid⟩ hc
      · exact hid
  | remove other =>
      dsimp only at hid
      split at hid
      · cases hid
      · exact hid
  | interests => exact hid

theorem get?_of_lastOn_none {changes : List Change} (hnone : lastOn h r changes = none) {id : String}
    (hid : (changes.foldl apply r).get? id = some h) : r.get? id = some h := by
  induction changes generalizing r with
  | nil => exact hid
  | cons c rest ih =>
      obtain ⟨hrest, hc⟩ := Option.or_eq_none_iff.1 hnone
      have hspared : ¬r.Concerns h c := fun hconcerns => by simp [hconcerns] at hc
      exact get?_of_not_concerns hspared (ih hrest hid)

theorem concerns_of_lastOn {changes : List Change} {c : Change} (hlast : lastOn h r changes = some c) :
    ∃ before : Registry, before.Concerns h c := by
  induction changes generalizing r with
  | nil => cases hlast
  | cons first rest ih =>
      rcases Option.or_eq_some_iff.1 hlast with hrest | ⟨-, hfirst⟩
      · exact ih hrest
      · split at hfirst
        · next hc =>
          cases hfirst
          exact ⟨r, hc⟩
        · cases hfirst

-- A registered object without a name has lost an identifier since it was given one.
theorem idOf?_eq_none_iff {changes : List Change} {id : String} (hid : (run changes).get? id = some h) :
    (run changes).idOf? h = none ↔ ∃ lost, lastOn h {} changes = some (.remove lost) := by
  have hname : (run changes).idOf? h = _ := idOf?_foldl h {} changes
  rw [hname]
  cases hlast : lastOn h {} changes with
  | none => cases get?_of_lastOn_none hlast hid
  | some c =>
      obtain ⟨before, hc⟩ := concerns_of_lastOn hlast
      cases c with
      | insert => simp [Change.name?]
      | remove => simp [Change.name?]
      | interests => exact hc.elim

-- Whether a change takes an identifier from an object that has another one.
def Strips (r : Registry) : Change → Prop
  | .remove id => ∃ h other, other ≠ id ∧ r.get? id = some h ∧ r.get? other = some h
  | _ => False

-- No change of a series takes one of several identifiers from an object.
def Gentle : Registry → List Change → Prop
  | _, [] => True
  | r, c :: rest => ¬r.Strips c ∧ Gentle (r.apply c) rest

def Complete (r : Registry) : Prop := ∀ id h, r.get? id = some h → ∃ name, r.idOf? h = some name

theorem Complete.apply (hr : r.Complete) {c : Change} (hc : ¬r.Strips c) : (r.apply c).Complete := by
  intro id h hid
  by_cases hconcerns : r.Concerns h c
  · rw [idOf?_of_concerns hconcerns]
    cases c with
    | insert => exact ⟨_, rfl⟩
    | remove lost =>
        rw [get?_apply] at hid
        dsimp only at hid
        split at hid
        · cases hid
        · next hne => exact absurd ⟨h, id, hne, hconcerns, hid⟩ hc
    | interests => exact hconcerns.elim
  · rw [idOf?_of_not_concerns hconcerns]
    exact hr id h (get?_of_not_concerns hconcerns hid)

theorem complete_of_gentle {changes : List Change} (hr : r.Complete) (h : Gentle r changes) :
    (changes.foldl Registry.apply r).Complete := by
  induction changes generalizing r with
  | nil => exact hr
  | cons c rest ih => exact ih (hr.apply h.1) h.2

-- The data of an object that is registered is null exactly if it has lost an identifier since it was last given
-- one, be it registered by others still. That cannot be as long as no object loses one of several.
theorem unnamed_iff_lost (changes : List Change) (h : Handle) {id : String}
    (hid : (run changes).get? id = some h) :
    ((run changes).toJson (.object h) = .null ↔ ∃ lost, lastOn h {} changes = some (.remove lost)) ∧
      (Gentle {} changes →
        ∃ name, (run changes).toJson (.object h) = .str name ∧ (run changes).get? name = some h) := by
  have hnull : (run changes).toJson (.object h) = .null ↔ (run changes).idOf? h = none := by
    rw [toJson_object]
    cases (run changes).idOf? h <;> simp
  refine ⟨hnull.trans (idOf?_eq_none_iff hid), fun hgentle => ?_⟩
  have hempty : Complete {} := fun _ _ h => nomatch h
  obtain ⟨name, hname⟩ : ∃ name, (run changes).idOf? h = some name :=
    complete_of_gentle hempty hgentle id h hid
  exact ⟨name, by rw [toJson_object, hname]; rfl, run_truthful changes h name hname⟩

-- An object that is registered twice and destroyed by its first identifier.
section Alias

def aliased : List Change := [.insert "A" 0, .insert "B" 0, .remove "A"]

theorem unnamed_iff_lost_aliased :
    ((run aliased).get? "B" = some 0 ∧ lastOn 0 {} aliased = some (.remove "A") ∧
      (run aliased).toJson (.object 0) = .null) ∧
    (run (aliased.take 2)).get? "A" = some 0 ∧ ∃ name,
      (run (aliased.take 2)).toJson (.object 0) = .str name ∧ (run (aliased.take 2)).get? name = some 0 := by
  have hstripped : (run aliased).get? "B" = some 0 := rfl
  have hboth : (run (aliased.take 2)).get? "A" = some 0 := rfl
  exact ⟨⟨hstripped, rfl, (unnamed_iff_lost aliased 0 hstripped).1.2 ⟨"A", rfl⟩⟩,
    hboth, (unnamed_iff_lost (aliased.take 2) 0 hboth).2 ⟨id, id, trivial⟩⟩

theorem registered_without_name : ∃ (changes : List Change) (h : Handle) (id : String),
    (run changes).get? id = some h ∧ (run changes).idOf? h = none ∧
      (run changes).toJson (.object h) = .null :=
  ⟨aliased, 0, "B", rfl, rfl, rfl⟩

end Alias

end Unnamed

end Registry

end SceneLink
