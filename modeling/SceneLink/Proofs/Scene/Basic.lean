import SceneLink.Scene.Basic

namespace SceneLink

-- Whether the data of a node is of some kind. An object is of every kind.
def Node.Holds (good : Json → Prop) : Node → Prop
  | .value json => good json
  | .object _ => True

namespace Scene

variable {s t : Scene} {h : Handle} {object : Object}

theorem objects_put (s : Scene) (h other : Handle) (object : Object) :
    (s.put h object).objects[other]? =
      if h = other then (if h < s.objects.length then some object else none) else s.objects[other]? :=
  List.getElem?_set

theorem canRead_of_canWrite (hwrite : s.canWrite h = true) : s.canRead h = true := by
  unfold canWrite at hwrite
  unfold canRead
  rw [List.all_eq_true] at hwrite ⊢
  intro use huse
  have hother := hwrite use huse
  simp only [ne_eq, decide_not, Bool.not_eq_eq_eq_not, Bool.not_true, decide_eq_false_iff_not] at hother ⊢
  exact fun heq => hother (congrArg Prod.fst heq)

theorem readable?_eq_some : s.readable? h = some object ↔ s.canRead h = true ∧ s.objects[h]? = some object := by
  unfold readable?
  split
  · next hread => exact ⟨fun hobject => ⟨hread, hobject⟩, And.right⟩
  · next hread => exact ⟨(fun hobject => nomatch hobject), fun hobject => absurd hobject.1 hread⟩

theorem read_eq_ok : s.read h = .ok object ↔ s.canRead h = true ∧ s.objects[h]? = some object := by
  rw [← readable?_eq_some]
  unfold read
  cases s.readable? h <;> simp

theorem writable_eq_ok : s.writable h = .ok object ↔ s.canWrite h = true ∧ s.objects[h]? = some object := by
  unfold writable
  by_cases hwrite : s.canWrite h = true
  · rw [if_pos hwrite]
    cases s.objects[h]? <;> simp [hwrite]
  · rw [if_neg hwrite]
    exact ⟨(fun hobject => nomatch hobject), fun hobject => absurd hobject.1 hwrite⟩

-- A change that succeeds puts the changed object in the place of the old one, and touches nothing else.
theorem modify_eq_ok {change : (Node → String) → Object → Except AccessError Object}
    (hmodify : s.modify h change = .ok t) : ∃ object changed, s.canWrite h = true ∧
      s.objects[h]? = some object ∧ change (s.describeWhileWriting h) object = .ok changed ∧
      t = s.put h changed := by
  unfold modify at hmodify
  cases hobject : s.writable h with
  | error e =>
      rw [hobject] at hmodify
      cases hmodify
  | ok object =>
      rw [hobject] at hmodify
      obtain ⟨hwrite, hheld⟩ := writable_eq_ok.1 hobject
      change (change (s.describeWhileWriting h) object >>= fun changed => pure (s.put h changed)) = _ at hmodify
      cases hchanged : change (s.describeWhileWriting h) object with
      | error e =>
          rw [hchanged] at hmodify
          cases hmodify
      | ok changed =>
          rw [hchanged] at hmodify
          cases hmodify
          exact ⟨object, changed, hwrite, hheld, hchanged, rfl⟩

end Scene

end SceneLink
