import Mathlib.Logic.Relation
import SceneLink.Proofs.Outcome
import SceneLink.Proofs.Scene.Basic

namespace SceneLink

-- The children of every object, by the handle of the object.
abbrev Hierarchy := List (List Handle)

namespace Hierarchy

open Relation (TransGen ReflTransGen)

def Parent (t : Hierarchy) (parent child : Handle) : Prop :=
  ∃ children, t[parent]? = some children ∧ child ∈ children

-- No object hangs below itself.
def Acyclic (t : Hierarchy) : Prop := ∀ h, ¬TransGen t.Parent h h

-- All children are objects of the scene.
def Closed (t : Hierarchy) : Prop := ∀ parent child, t.Parent parent child → child < t.length

-- All children are objects of the scene, and none is its own child.
structure Sound (t : Hierarchy) : Prop where
  closed : t.Closed
  strict : ∀ h, ¬t.Parent h h

-- Objects that come after those of a hierarchy, with children that come between.
def Grown (t more : Hierarchy) : Prop :=
  ∀ i children, more[i]? = some children → ∀ child ∈ children, t.length ≤ child ∧ child < t.length + i

def hang (t : Hierarchy) (parent child : Handle) : Hierarchy :=
  t.modify parent (· ++ [child])

variable {t more rest : Hierarchy} {a b : Handle}

section Growing

theorem parent_append : Parent (t ++ more) a b ↔ t.Parent a b ∨
    t.length ≤ a ∧ Parent more (a - t.length) b := by
  unfold Parent
  by_cases ha : a < t.length
  · rw [List.getElem?_append_left ha]
    exact ⟨.inl, fun h => h.resolve_right fun hright => absurd hright.1 (Nat.not_le.2 ha)⟩
  · rw [List.getElem?_append_right (Nat.not_lt.1 ha), List.getElem?_eq_none (Nat.not_lt.1 ha)]
    refine ⟨fun h => .inr ⟨Nat.not_lt.1 ha, h⟩, fun h => ?_⟩
    rcases h with ⟨_, hnone, -⟩ | h
    · cases hnone
    · exact h.2

theorem Grown.bounds (hg : Grown t more) (ha : t.length ≤ a) (h : Parent more (a - t.length) b) :
    t.length ≤ b ∧ b < a := by
  obtain ⟨children, hchildren, hb⟩ := h
  have hbounds := hg _ _ hchildren b hb
  rwa [Nat.add_sub_cancel' ha] at hbounds

theorem closed_append (ht : t.Closed) (hg : Grown t more) : Closed (t ++ more) := by
  intro a b h
  rw [List.length_append]
  rcases parent_append.1 h with hold | ⟨ha, hnew⟩
  · exact Nat.lt_add_right _ (ht a b hold)
  · have hb := (hg.bounds ha hnew).2
    obtain ⟨children, hchildren, -⟩ := hnew
    obtain ⟨hlt, -⟩ := List.getElem?_eq_some_iff.1 hchildren
    exact Nat.lt_trans hb ((Nat.sub_lt_iff_lt_add' ha).1 hlt)

theorem Sound.append (ht : t.Sound) (hg : Grown t more) : Sound (t ++ more) := by
  refine ⟨closed_append ht.closed hg, fun h hself => ?_⟩
  rcases parent_append.1 hself with hold | ⟨hh, hnew⟩
  · exact ht.strict h hold
  · exact Nat.lt_irrefl h (hg.bounds hh hnew).2

-- What hangs below an old object is old,
theorem old_of_below (ht : t.Closed) (h : TransGen (Parent (t ++ more)) a b) (ha : a < t.length) :
    TransGen t.Parent a b ∧ b < t.length := by
  induction h with
  | single h =>
      have hold := (parent_append.1 h).resolve_right fun hnew => absurd hnew.1 (Nat.not_le.2 ha)
      exact ⟨.single hold, ht _ _ hold⟩
  | tail _ h ih =>
      have hold := (parent_append.1 h).resolve_right fun hnew => absurd hnew.1 (Nat.not_le.2 ih.2)
      exact ⟨ih.1.tail hold, ht _ _ hold⟩

-- and what hangs below a new one was built before it.
theorem lt_of_below (hg : Grown t more) (h : TransGen (Parent (t ++ more)) a b) (ha : t.length ≤ a) :
    b < a := by
  have hedge {c d : Handle} (h : Parent (t ++ more) c d) (hc : t.length ≤ c) : t.length ≤ d ∧ d < c := by
    rcases parent_append.1 h with ⟨_, hold, -⟩ | ⟨-, hnew⟩
    · rw [List.getElem?_eq_none hc] at hold
      cases hold
    · exact hg.bounds hc hnew
  suffices t.length ≤ b ∧ b < a from this.2
  induction h with
  | single h => exact hedge h ha
  | tail _ h ih =>
      have hbounds := hedge h ih.1
      exact ⟨hbounds.1, Nat.lt_trans hbounds.2 ih.2⟩

theorem acyclic_append (ht : t.Closed) (hg : Grown t more) : Acyclic (t ++ more) ↔ t.Acyclic := by
  constructor
  · intro hacyclic h hcycle
    exact hacyclic h (TransGen.mono (fun _ _ hold => parent_append.2 (.inl hold)) _ _ hcycle)
  · intro hacyclic h hcycle
    by_cases hold : h < t.length
    · exact hacyclic h (old_of_below ht hcycle hold).1
    · exact Nat.lt_irrefl h (lt_of_below hg hcycle (Nat.not_lt.1 hold))

theorem grown_nil (t : Hierarchy) : Grown t [] := by
  intro i children h
  cases h

theorem Grown.append (hg : Grown t more) (hrest : Grown (t ++ more) rest) : Grown t (more ++ rest) := by
  intro i children hchildren child hchild
  by_cases hi : i < more.length
  · rw [List.getElem?_append_left hi] at hchildren
    exact hg i children hchildren child hchild
  · rw [List.getElem?_append_right (Nat.not_lt.1 hi)] at hchildren
    have hbounds := hrest _ children hchildren child hchild
    rw [List.length_append] at hbounds
    omega

theorem Grown.snoc (hg : Grown t more) {children : List Handle}
    (hchildren : ∀ child ∈ children, t.length ≤ child ∧ child < t.length + more.length) :
    Grown t (more ++ [children]) := by
  intro i others hothers child hchild
  by_cases hi : i < more.length
  · rw [List.getElem?_append_left hi] at hothers
    exact hg i others hothers child hchild
  · rw [List.getElem?_append_right (Nat.not_lt.1 hi)] at hothers
    obtain rfl : others = children := List.mem_singleton.1 (List.mem_of_getElem? hothers)
    have hbounds := hchildren child hchild
    exact ⟨hbounds.1, Nat.lt_of_lt_of_le hbounds.2 (Nat.add_le_add_left (Nat.not_lt.1 hi) _)⟩

end Growing

section Hanging

variable {parent child : Handle}

theorem parent_hang (hparent : parent < t.length) :
    (t.hang parent child).Parent a b ↔ t.Parent a b ∨ a = parent ∧ b = child := by
  unfold Parent hang
  rw [List.getElem?_modify]
  by_cases ha : parent = a
  · subst ha
    rw [List.getElem?_eq_getElem hparent]
    simp
  · simp [ha, Ne.symm ha]

theorem closed_hang (ht : t.Closed) (hparent : parent < t.length) (hchild : child < t.length) :
    (t.hang parent child).Closed := by
  intro a b h
  unfold hang
  rw [List.length_modify]
  rcases (parent_hang hparent).1 h with hold | ⟨-, rfl⟩
  · exact ht a b hold
  · exact hchild

theorem Sound.hang (ht : t.Sound) (hparent : parent < t.length) (hchild : child < t.length)
    (hne : parent ≠ child) : (t.hang parent child).Sound := by
  refine ⟨closed_hang ht.closed hparent hchild, fun h hself => ?_⟩
  rcases (parent_hang hparent).1 hself with hold | ⟨rfl, heq⟩
  · exact ht.strict h hold
  · exact hne heq

-- A way down that uses the new place passes its parent and goes on from the child.
theorem below_hang (hparent : parent < t.length) (hnot : ¬ReflTransGen t.Parent child parent)
    (h : TransGen (t.hang parent child).Parent a b) :
    TransGen t.Parent a b ∨ ReflTransGen t.Parent a parent ∧ ReflTransGen t.Parent child b := by
  induction h with
  | single h =>
      rcases (parent_hang hparent).1 h with hold | ⟨rfl, rfl⟩
      · exact .inl (.single hold)
      · exact .inr ⟨.refl, .refl⟩
  | tail _ h ih =>
      rcases (parent_hang hparent).1 h with hold | ⟨rfl, rfl⟩
      · rcases ih with hbefore | ⟨habove, hbelow⟩
        · exact .inl (hbefore.tail hold)
        · exact .inr ⟨habove, hbelow.tail hold⟩
      · rcases ih with hbefore | ⟨-, hbelow⟩
        · exact .inr ⟨hbefore.to_reflTransGen, .refl⟩
        · exact absurd hbelow hnot

theorem acyclic_hang (hparent : parent < t.length) :
    (t.hang parent child).Acyclic ↔ t.Acyclic ∧ ¬ReflTransGen t.Parent child parent := by
  have hmono : t.Parent ≤ (t.hang parent child).Parent := fun _ _ hold => (parent_hang hparent).2 (.inl hold)
  constructor
  · intro hacyclic
    refine ⟨fun h hcycle => hacyclic h (TransGen.mono hmono _ _ hcycle), fun hbelow => ?_⟩
    have hplace : (t.hang parent child).Parent parent child := (parent_hang hparent).2 (.inr ⟨rfl, rfl⟩)
    exact hacyclic child (TransGen.tail' (ReflTransGen.mono hmono _ _ hbelow) hplace)
  · rintro ⟨hacyclic, hnot⟩ h hcycle
    rcases below_hang hparent hnot hcycle with hold | ⟨habove, hbelow⟩
    · exact hacyclic h hold
    · exact hnot (hbelow.trans habove)

end Hanging

end Hierarchy

namespace Scene

def hierarchy (s : Scene) : Hierarchy := s.objects.map Object.children

section Changes

variable {s t : Scene} {h child : Handle} {object : Object}

private theorem hierarchy_put (hold : s.objects[h]? = some object) {changed : Object}
    (hsame : changed.children = object.children) : (s.put h changed).hierarchy = s.hierarchy := by
  obtain ⟨hlt, hget⟩ := List.getElem?_eq_some_iff.1 hold
  unfold hierarchy put
  rw [List.map_set, hsame, ← hget, ← List.map_set, List.set_getElem_self]

theorem hierarchy_modify {change : (Node → String) → Object → Except AccessError Object}
    (hchange : ∀ found object changed, change found object = .ok changed →
      changed.children = object.children)
    (hmodify : s.modify h change = .ok t) : t.hierarchy = s.hierarchy := by
  obtain ⟨object, changed, -, hold, hchanged, rfl⟩ := modify_eq_ok hmodify
  exact hierarchy_put hold (hchange _ _ _ hchanged)

private theorem children_setMember {found : Node → String} {name : String} {value : Node} {changed : Object}
    (hset : object.setMember found name value = .ok changed) : changed.children = object.children := by
  cases object with
  | component c =>
      obtain ⟨d, -, rfl⟩ := ok_of_map hset
      rfl
  | entity e =>
      obtain ⟨d, hd, rfl⟩ := ok_of_map hset
      change d.children = e.children
      unfold Entity.setMember at hd
      split at hd
      any_goals cases hd
      all_goals
        obtain ⟨_, -, rfl⟩ := ok_of_map hd
        rfl

theorem hierarchy_setMember {name : String} {value : Node} (hset : s.setMember h name value = .ok t) :
    t.hierarchy = s.hierarchy :=
  hierarchy_modify (fun _ _ _ => children_setMember) hset

theorem hierarchy_setKey {key : String} {value : Node} (hset : s.setKey h key value = .ok t) :
    t.hierarchy = s.hierarchy := by
  refine hierarchy_modify (fun found object changed hchange => ?_) hset
  cases object with
  | entity e => cases hchange
  | component c =>
      obtain ⟨d, -, rfl⟩ := ok_of_map hchange
      rfl

theorem hierarchy_deliver {events : List String} (hdeliver : s.deliver h events = .ok t) :
    t.hierarchy = s.hierarchy := by
  refine hierarchy_modify (fun found object changed hchange => ?_) hdeliver
  cases hchange
  clear hdeliver
  induction events generalizing object with
  | nil => rfl
  | cons event events ih =>
      rw [List.foldl_cons, ih]
      cases object <;> rfl

theorem hierarchy_addComponent {component : Handle} (hadd : s.addComponent h component = .ok t) :
    t.hierarchy = s.hierarchy := by
  refine hierarchy_modify (fun found object changed hchange => ?_) hadd
  cases object with
  | component c => cases hchange
  | entity e =>
      cases hchange
      rfl

private theorem children_translateBy (e : Entity) (x y z : Json) :
    (e.translateBy x y z).target.children = e.children := by
  unfold Entity.translateBy
  dsimp only
  split
  · rfl
  · split
    · rfl
    · split <;> rfl

private theorem children_invoke {method : String} {args : List Json} {called : Called Object}
    (hcalled : object.invoke? method args = some called) : called.target.children = object.children := by
  cases object with
  | component c => cases hcalled
  | entity e =>
      obtain ⟨called, hinvoke, rfl⟩ := Option.map_eq_some_iff.1 hcalled
      change called.target.children = e.children
      unfold Entity.invoke? at hinvoke
      split at hinvoke
      · cases hinvoke
        unfold Entity.setActive
        split <;> rfl
      · cases hinvoke
        unfold Entity.translate
        split
        · exact children_translateBy e _ _ _
        · rfl
      · cases hinvoke
        rfl
      · cases hinvoke

theorem hierarchy_call (s : Scene) (h : Handle) (method : String) (args : List Json) :
    (s.call h method args).scene.hierarchy = s.hierarchy := by
  unfold call
  cases hobject : s.writable h with
  | error e => rfl
  | ok object =>
      dsimp only
      cases hcalled : object.invoke? method args with
      | none => rfl
      | some called => exact hierarchy_put (writable_eq_ok.1 hobject).2 (children_invoke hcalled)

theorem hierarchy_rebase {origin : Vec3} (hrebase : s.rebase child origin = .ok t) :
    t.hierarchy = s.hierarchy := by
  unfold rebase at hrebase
  obtain ⟨object, -, hrebase⟩ := ok_of_bind hrebase
  split at hrebase
  · cases hrebase
    rfl
  · obtain ⟨world, -, hrebase⟩ := ok_of_bind hrebase
    exact hierarchy_setMember hrebase

theorem set_eq_hang (hold : s.objects[h]? = some object) :
    s.hierarchy.set h (object.children ++ [child]) = s.hierarchy.hang h child := by
  obtain ⟨hlt, hget⟩ := List.getElem?_eq_some_iff.1 hold
  refine List.ext_getElem? fun i => ?_
  unfold Hierarchy.hang
  rw [List.getElem?_set, List.getElem?_modify]
  unfold hierarchy
  by_cases hi : h = i
  · subst hi
    simp [hlt, hget]
  · simp [hi]

theorem hierarchy_addChild {stays : Bool} (hadd : s.addChild h child stays = .ok t) :
    h < s.hierarchy.length ∧ t.hierarchy = s.hierarchy.hang h child := by
  unfold addChild at hadd
  obtain ⟨object, hobject, hadd⟩ := ok_of_bind hadd
  obtain ⟨-, hold⟩ := writable_eq_ok.1 hobject
  obtain ⟨hlt, -⟩ := List.getElem?_eq_some_iff.1 hold
  cases object with
  | component c => cases hadd
  | entity e =>
      have hplace {moved : Scene} (hsame : moved.hierarchy = s.hierarchy) :
          ({ s with objects := moved.objects }.put h
            (.entity { e with children := e.children ++ [child] })).hierarchy = s.hierarchy.hang h child := by
        change (moved.objects.set h _).map Object.children = _
        rw [List.map_set]
        change moved.hierarchy.set h _ = _
        rw [hsame]
        exact set_eq_hang hold
      refine ⟨by unfold hierarchy; rwa [List.length_map], ?_⟩
      cases stays with
      | false =>
          cases hadd
          exact hplace rfl
      | true =>
          obtain ⟨moved, hmoved, hadd⟩ := ok_of_bind hadd
          cases hadd
          have hsame := hierarchy_rebase hmoved
          exact hplace hsame

end Changes

end Scene

namespace Blueprint

mutual

-- A plan that makes all of its objects anew.
def Fresh : Blueprint → Prop
  | entity _ _ components children => FreshAll components ∧ FreshAll children
  | component _ _ => True
  | existing _ => False

def FreshAll : List Blueprint → Prop
  | [] => True
  | plan :: plans => Fresh plan ∧ FreshAll plans

end

-- A scene that has grown by objects built after those that were there, these handles among them.
def Builds (s : Scene) (hs : List Handle) (t : Scene) : Prop :=
  ∃ more, t.hierarchy = s.hierarchy ++ more ∧ Hierarchy.Grown s.hierarchy more ∧
    ∀ h ∈ hs, s.hierarchy.length ≤ h ∧ h < t.hierarchy.length

variable {s t u : Scene} {hs more : List Handle}

theorem builds_nil (s : Scene) : Builds s [] s :=
  ⟨[], (List.append_nil _).symm, Hierarchy.grown_nil _, fun _ hh => nomatch hh⟩

theorem Builds.append (h : Builds s hs t) (h' : Builds t more u) : Builds s (hs ++ more) u := by
  obtain ⟨first, hfirst, hgrown, hbounds⟩ := h
  obtain ⟨second, hsecond, hgrown', hbounds'⟩ := h'
  refine ⟨first ++ second, ?_, hgrown.append (hfirst ▸ hgrown'), fun h hh => ?_⟩
  · rw [hsecond, hfirst, List.append_assoc]
  · rw [hsecond, List.length_append]
    rw [hsecond, List.length_append] at hbounds'
    rcases List.mem_append.1 hh with hh | hh
    · exact ⟨(hbounds h hh).1, Nat.lt_add_right _ (hbounds h hh).2⟩
    · refine ⟨Nat.le_trans ?_ (hbounds' h hh).1, (hbounds' h hh).2⟩
      rw [hfirst, List.length_append]
      exact Nat.le_add_right _ _

theorem Builds.mono (h : Builds s hs t) (hsub : more ⊆ hs) : Builds s more t := by
  obtain ⟨grown, heq, hgrown, hbounds⟩ := h
  exact ⟨grown, heq, hgrown, fun h hh => hbounds h (hsub hh)⟩

theorem Builds.add {object : Object} (h : Builds s object.children t) :
    Builds s [(t.add object).1] (t.add object).2 := by
  obtain ⟨more, hmore, hgrown, hbounds⟩ := h
  have hlength : t.objects.length = t.hierarchy.length := (List.length_map _).symm
  have hadded : (t.add object).2.hierarchy = t.hierarchy ++ [object.children] := by
    change (t.objects ++ [object]).map Object.children = _
    rw [List.map_append]
    rfl
  rw [hmore, List.length_append] at hbounds hlength
  refine ⟨more ++ [object.children], ?_, hgrown.snoc hbounds, List.forall_mem_singleton.2 ?_⟩
  · rw [hadded, hmore, List.append_assoc]
  · rw [hadded, hmore, List.length_append, List.length_append]
    change _ ≤ t.objects.length ∧ t.objects.length < _
    rw [hlength]
    exact ⟨Nat.le_add_right _ _, Nat.lt_succ_self _⟩

mutual

theorem builds_build : (plan : Blueprint) → (s : Scene) → plan.Fresh →
    Builds s [(plan.build s).1] (plan.build s).2
  | entity name position components children, s, hfresh => by
      have hcomponents := builds_buildAll components s hfresh.1
      have hchildren := builds_buildAll children (buildAll components s).2 hfresh.2
      exact Builds.add ((hcomponents.append hchildren).mono (List.subset_append_right _ _))
  | component typeName fields, s, _ => Builds.add (builds_nil s)
  | existing _, _, hfresh => hfresh.elim

theorem builds_buildAll : (plans : List Blueprint) → (s : Scene) → FreshAll plans →
    Builds s (buildAll plans s).1 (buildAll plans s).2
  | [], s, _ => builds_nil s
  | plan :: plans, s, hfresh =>
      (builds_build plan s hfresh.1).append (builds_buildAll plans (plan.build s).2 hfresh.2)

end

end Blueprint

end SceneLink
