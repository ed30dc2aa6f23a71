import Mathlib.Data.List.Basic
import Mathlib.Data.List.TakeWhile
import SceneLink.Text.Blank

namespace SceneLink.Text

structure Solid (cs : List Char) : Prop where
  ne_nil : cs ≠ []
  head : ∀ c ∈ cs.head?, isBlank c = false
  last : ∀ c ∈ cs.getLast?, isBlank c = false

def Blank (cs : List Char) : Prop := ∀ c ∈ cs, isBlank c = true

variable {as bs cs : List Char} {c : Char}

theorem solid_one (hc : isBlank c = false) : Solid [c] where
  ne_nil := List.cons_ne_nil c []
  head := fun d hd => by
    cases hd
    exact hc
  last := fun d hd => by
    cases hd
    exact hc

theorem Solid.append (ha : Solid as) (middle : List Char) (hb : Solid bs) : Solid (as ++ (middle ++ bs)) where
  ne_nil := List.append_ne_nil_of_left_ne_nil ha.ne_nil _
  head := fun d hd => by
    rw [List.head?_append_of_ne_nil _ ha.ne_nil] at hd
    exact ha.head d hd
  last := fun d hd => by
    rw [← List.append_assoc, List.getLast?_append_of_ne_nil _ hb.ne_nil] at hd
    exact hb.last d hd

theorem trim_eq_self (hfirst : ∀ c ∈ cs.head?, isBlank c = false)
    (hlast : ∀ c ∈ cs.getLast?, isBlank c = false) : trim cs = cs := by
  have hdrop : ∀ ds : List Char, (∀ c ∈ ds.head?, isBlank c = false) → ds.dropWhile isBlank = ds := by
    intro ds hds
    cases ds with
    | nil => rfl
    | cons c ds => rw [List.dropWhile_cons_of_neg (by simp [hds c rfl])]
  unfold trim trimEnd
  rw [hdrop cs hfirst, hdrop cs.reverse (by rwa [List.head?_reverse]), List.reverse_reverse]

theorem trimEnd_append (h : Blank bs) (cs : List Char) : trimEnd (cs ++ bs) = trimEnd cs := by
  have hreverse : ∀ c ∈ bs.reverse, isBlank c = true := fun c hc => h c (List.mem_reverse.1 hc)
  unfold trimEnd
  rw [List.reverse_append, List.dropWhile_append_of_pos hreverse]

theorem trim_padded (ha : Blank as) (hcs : Solid cs) (hb : Blank bs) : trim (as ++ (cs ++ bs)) = cs := by
  have hstart : (cs ++ bs).dropWhile isBlank = cs.dropWhile isBlank ++ bs := by
    obtain ⟨c, tail, rfl⟩ := List.exists_cons_of_ne_nil hcs.ne_nil
    have hc : ¬isBlank c = true := by simp [hcs.head c rfl]
    rw [List.cons_append, List.dropWhile_cons_of_neg hc, List.dropWhile_cons_of_neg hc, List.cons_append]
  have hself : trim cs = cs := trim_eq_self hcs.head hcs.last
  unfold trim at hself ⊢
  rw [List.dropWhile_append_of_pos ha, hstart, trimEnd_append hb, hself]

theorem blank_takeWhile (cs : List Char) : Blank (cs.takeWhile isBlank) := fun _ => List.mem_takeWhile_imp

theorem dropWhile_eq_trim (cs : List Char) : ∃ bs, Blank bs ∧ cs.dropWhile isBlank = trim cs ++ bs := by
  refine ⟨((cs.dropWhile isBlank).reverse.takeWhile isBlank).reverse,
    fun c hc => blank_takeWhile _ c (List.mem_reverse.1 hc), ?_⟩
  unfold trim trimEnd
  rw [← List.reverse_append, List.takeWhile_append_dropWhile, List.reverse_reverse]

theorem not_blank_head (cs : List Char) : ∀ c ∈ (cs.dropWhile isBlank).head?, isBlank c = false := by
  intro c hc
  have hdropped := List.head?_dropWhile_not isBlank cs
  rw [Option.mem_def.1 hc] at hdropped
  simpa using hdropped

theorem solid_trim (h : trim cs ≠ []) : Solid (trim cs) where
  ne_nil := h
  head := fun c hc => by
    obtain ⟨bs, -, hstart⟩ := dropWhile_eq_trim cs
    refine not_blank_head cs c ?_
    rw [hstart, List.head?_append_of_ne_nil _ h]
    exact hc
  last := fun c hc => by
    unfold trim trimEnd at hc
    rw [List.getLast?_reverse] at hc
    exact not_blank_head _ c hc

end SceneLink.Text
