import SceneLink.Proofs.Json.Order
import SceneLink.Proofs.World.Literal

namespace SceneLink

open Json

namespace Expression

variable {op : String} {current operand json : Json}

theorem settle_eq_ok {x : Double} : settle op x = .ok json ↔ x ≠ .nan ∧ json = ofDouble x := by
  unfold settle
  cases x <;> simp [Double.isNan, eq_comm]

-- Whatever the two numbers are, the computation ends in `settle`.
theorem ofDouble_of_arithmetic {f : Double → Double → Except ExpressionError Double}
    (h : arithmetic op current operand f = .ok json) : ∃ x, x ≠ .nan ∧ json = ofDouble x := by
  unfold arithmetic at h
  dsimp only at h
  split at h
  all_goals
    obtain ⟨a, -, h⟩ := ok_of_bind h
    split at h
    all_goals
      obtain ⟨b, -, h⟩ := ok_of_bind h
      obtain ⟨x, -, h⟩ := ok_of_bind h
      exact ⟨x, settle_eq_ok.1 h⟩

end Expression

namespace Constraint

variable {value json : Json}

def isNumeric : Constraint → Bool
  | clamp _ _ | round _ => true
  | maxLength _ | format _ => false

theorem ofDouble_of_apply {constraint : Constraint} (hnumeric : constraint.isNumeric = true)
    (h : constraint.apply value = .ok json) : ∃ x, x ≠ .nan ∧ json = ofDouble x := by
  unfold apply at h
  cases constraint with
  | clamp min max =>
      dsimp only at h
      split at h
      · exact ⟨_, Expression.settle_eq_ok.1 h⟩
      · cases h
  | round digits =>
      dsimp only at h
      split at h
      · next x hx =>
        have hnumber : x ≠ .nan := by
          cases value with
          | num n => exact Option.some.inj hx ▸ n.toDouble_ne_nan
          | _ => cases hx
        unfold roundTo at h
        dsimp only at h
        split at h
        · cases h
          exact ⟨x, hnumber, rfl⟩
        · exact ⟨_, Expression.settle_eq_ok.1 h⟩
      · cases h
  | maxLength _ | format _ => cases hnumeric

theorem sorted_apply {constraint : Constraint} (hvalue : value.Sorted)
    (h : constraint.apply value = .ok json) : json.Sorted := by
  cases constraint with
  | clamp _ _ | round _ =>
      obtain ⟨x, -, rfl⟩ := ofDouble_of_apply rfl h
      exact sorted_ofDouble x
  | maxLength length =>
      cases value with
      | str s =>
          cases h
          trivial
      | arr items =>
          cases h
          exact sorted_of_subset hvalue (List.take_subset length items)
      | _ => cases h
  | format template =>
      cases h
      trivial

theorem sorted_applyAll {constraints : List Constraint} (hvalue : value.Sorted)
    (h : constraints.foldlM (fun value constraint => constraint.apply value) value = .ok json) :
    json.Sorted := by
  induction constraints generalizing value with
  | nil =>
      cases h
      exact hvalue
  | cons constraint rest ih =>
      rw [List.foldlM_cons] at h
      obtain ⟨next, hfirst, hrest⟩ := ok_of_bind h
      exact ih (sorted_apply hvalue hfirst) hrest

end Constraint

namespace Expression

variable {current operand json : Json} {op : String}

private theorem sorted_arithmetic {f : Double → Double → Except ExpressionError Double}
    (h : arithmetic op current operand f = .ok json) : json.Sorted := by
  obtain ⟨x, -, rfl⟩ := ofDouble_of_arithmetic h
  exact sorted_ofDouble x

private theorem sorted_extend {join : ∀ {α : Type}, [Append α] → α → α → α}
    (hjoin : ∀ {items item}, (arr items).Sorted → item.Sorted → (arr (join items [item])).Sorted)
    (hcurrent : current.Sorted) (hoperand : operand.Sorted) (h : extend op join current operand = .ok json) :
    json.Sorted := by
  unfold extend at h
  split at h
  · cases h
    trivial
  · cases h
    trivial
  · cases h
    exact hjoin hcurrent hoperand
  · cases h
    exact ⟨hoperand, trivial⟩
  · cases h

theorem sorted_applyOperator {operator : Operator} (hcurrent : current.Sorted) (hoperand : operand.Sorted)
    (h : applyOperator operator op current operand = .ok json) : json.Sorted := by
  unfold applyOperator at h
  cases operator with
  | set =>
      cases h
      exact hoperand
  | toggle =>
      dsimp only at h
      split at h
      · cases h
        trivial
      · cases h
        trivial
      · cases h
  | add =>
      dsimp only at h
      split at h
      · cases h
        trivial
      · cases h
        trivial
      · exact sorted_arithmetic h
  | subtract | multiply | divide | min | max => exact sorted_arithmetic h
  | append =>
      refine sorted_extend (fun hitems hitem => ?_) hcurrent hoperand h
      exact sorted_append hitems (sorted_arr.2 (List.forall_mem_singleton.2 hitem))
  | prepend =>
      refine sorted_extend (fun hitems hitem => ?_) hcurrent hoperand h
      exact sorted_append (sorted_arr.2 (List.forall_mem_singleton.2 hitem)) hitems
  | remove =>
      dsimp only at h
      split at h
      · cases h
        exact sorted_of_subset hcurrent List.filter_sublist.subset
      · cases h
        exact sorted_erase hcurrent _
      · cases h

def Sorted : Expression → Prop
  | .literal json => json.Sorted
  | .reference _ => True
  | .change c => c.value.Sorted

theorem sorted_change {change : Change} (hvalue : change.value.Sorted) (hcurrent : current.Sorted)
    (h : change.apply current = .ok json) : json.Sorted := by
  unfold Change.apply at h
  split at h
  · cases h
  · next operator _ =>
    obtain ⟨value, hfirst, hrest⟩ := ok_of_bind h
    exact Constraint.sorted_applyAll (sorted_applyOperator hcurrent hvalue hfirst) hrest

theorem sorted_value {json : Json} {change : Change} (hjson : json.Sorted)
    (h : Change.ofJson? json = some change) : change.value.Sorted := by
  unfold Change.ofJson? at h
  simp only [Option.bind_eq_bind, Option.bind_eq_some_iff] at h
  obtain ⟨fields, hfields, _, -, value, hvalue, _, -, _, -, heq⟩ := h
  rw [← Option.some.inj heq]
  rcases Fields.of_withDefault hvalue with rfl | ⟨held, hheld, hread⟩
  · trivial
  · cases hread
    exact Fields.sorted_of_record? hjson hfields hheld

theorem sorted_ofJson {expr : Expression} (hjson : json.Sorted) (h : ofJson json = .ok expr) : expr.Sorted := by
  unfold ofJson at h
  split at h
  · next name inner =>
    have hinner : inner.Sorted := hjson.2.1
    split at h
    · obtain ⟨change, hread, rfl⟩ := ok_of_map h
      unfold Change.read at hread
      split at hread
      · cases hread
      · next read hofJson =>
        split at hread
        · cases hread
          exact sorted_value hinner hofJson
        · cases hread
    · split at h
      · unfold readReference at h
        split at h
        · split at h
          · cases h
            trivial
          · cases h
        · cases h
      · cases h
        exact hjson
  · cases h
    exact hjson

end Expression

namespace Literal

variable {type : Literal} {value json : Json}

theorem Admits.sorted (h : type.Admits json) (htype : type ≠ .json) : json.Sorted := by
  cases h with
  | json => exact absurd rfl htype
  | _ => trivial

theorem sorted_read? {raw : String} (h : type.read? raw = some json) : json.Sorted := by
  by_cases htype : type = .json
  · subst htype
    exact sorted_parse? h
  · exact (admits_of_read? h).sorted htype

theorem sorted_coerce (hvalue : value.Sorted) (h : type.coerce value = .ok json) : json.Sorted := by
  by_cases htype : type = .json
  · subst htype
    cases h
    exact hvalue
  · by_cases hnan : type = .float ∧ SpellsNan value
    · obtain ⟨rfl, hspells⟩ := hnan
      rw [coerce_nan hspells] at h
      cases h
      trivial
    · exact (admits_of_coerce h fun hfloat hspells => hnan ⟨hfloat, hspells⟩).sorted htype

end Literal

theorem sorted_ofText (text : String) : (Json.ofText text).Sorted := by
  unfold Json.ofText
  cases hparse : Json.parse? text with
  | none => trivial
  | some json => exact sorted_parse? hparse

end SceneLink
