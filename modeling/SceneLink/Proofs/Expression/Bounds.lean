import SceneLink.Proofs.Double.Order
import SceneLink.Proofs.Expression.Order
import SceneLink.Proofs.Expression.RoundTrip

namespace SceneLink

-- What is written as data is the number itself, up to the sign of zero.
theorem Json.ofDouble_value (x : Double.Finite) :
    ∃ n y, Json.ofDouble (.finite x) = .num n ∧ n.toDouble = .finite y ∧ y.signed = x.signed := by
  rw [Json.ofDouble_finite]
  split
  · next h =>
    obtain ⟨y, hy, -⟩ := Double.ofInt_exact (Nat.le_of_lt h.2)
    refine ⟨_, y, rfl, hy, ?_⟩
    have hdvd : Double.one ∣ x.units := Nat.dvd_of_mod_eq_zero (of_decide_eq_true h.1)
    rw [Double.signed_of_ofInt (Nat.le_of_lt h.2) hy]
    unfold Double.Finite.truncated Double.Finite.signed
    split
    · rw [Int.neg_mul, ← Nat.cast_mul, Nat.div_mul_cancel hdvd]
    · rw [← Nat.cast_mul, Nat.div_mul_cancel hdvd]
  · exact ⟨_, x, rfl, rfl, rfl⟩

namespace Constraint

-- The number is within the bounds of a clamp. A lower bound above the upper one counts for nothing.
structure Bounds (min max : Option Double) (x : Double) : Prop where
  upper : ∀ high ∈ max, x.le high = true
  lower : ∀ low ∈ min, (∀ high ∈ max, low.le high = true) → low.le x = true

variable {min max : Option Double} {constraint : Constraint} {value result : Json}

theorem Bounds.congr {x y : Double.Finite} (h : Bounds min max (.finite x)) (hsigned : y.signed = x.signed) :
    Bounds min max (.finite y) where
  upper := fun high hhigh => by
    rw [Double.le_congr_left hsigned]
    exact h.upper high hhigh
  lower := fun low hlow huncrossed => by
    rw [Double.le_congr_right hsigned]
    exact h.lower low hlow huncrossed

theorem exists_raised (min : Option Double) (hmin : ∀ low ∈ min, low.isFinite = true) (x : Double.Finite) :
    ∃ y, within min none (.finite x) = .finite y ∧ ∀ low ∈ min, low.le (.finite y) = true := by
  cases min with
  | none => exact ⟨x, rfl, fun _ h => nomatch h⟩
  | some low =>
      obtain ⟨low, rfl⟩ := Double.exists_of_isFinite (hmin low rfl)
      refine ⟨_, Double.max_finite x low, fun _ h => ?_⟩
      cases h
      rw [Double.le_finite]
      split <;> omega

theorem within_bounds (hmin : ∀ low ∈ min, low.isFinite = true) (hmax : ∀ high ∈ max, high.isFinite = true)
    (x : Double.Finite) : ∃ y, within min max (.finite x) = .finite y ∧ Bounds min max (.finite y) := by
  obtain ⟨raised, hraised, hlow⟩ := exists_raised min hmin x
  cases max with
  | none => exact ⟨raised, hraised, fun _ h => (nomatch h), fun low h _ => hlow low h⟩
  | some high =>
      obtain ⟨high, rfl⟩ := Double.exists_of_isFinite (hmax high rfl)
      have hlowered : within min (some (.finite high)) (.finite x) = (Double.finite raised).min (.finite high) :=
        congrArg (fun raised : Double => raised.min (.finite high)) hraised
      refine ⟨_, hlowered.trans (Double.min_finite raised high), fun _ h => ?_, fun low h huncrossed => ?_⟩
      · cases h
        rw [Double.le_finite]
        split <;> omega
      · -- Either bound may be what is left of the number.
        split
        · exact huncrossed _ rfl
        · exact hlow low h

theorem clamp_bounds (hformed : (clamp min max).Formed) (h : (clamp min max).apply value = .ok result) :
    ∃ n, result = .num n ∧ Bounds min max n.toDouble := by
  unfold apply at h
  dsimp only at h
  split at h
  · next x hx =>
    obtain ⟨x, rfl⟩ := Double.exists_of_isFinite (Json.isFinite_of_double? hx)
    obtain ⟨y, hy, hbounds⟩ := within_bounds hformed.1 hformed.2 x
    obtain ⟨n, z, hn, hz, hsigned⟩ := Json.ofDouble_value y
    rw [hy] at h
    refine ⟨n, ?_, ?_⟩
    · rw [(Expression.settle_eq_ok.1 h).2, hn]
    · rw [hz]
      exact hbounds.congr hsigned
  · cases h

theorem number_of_apply (hnumeric : constraint.isNumeric = true) (h : constraint.apply value = .ok result) :
    ∃ n, result = .num n := by
  obtain ⟨x, hx, rfl⟩ := ofDouble_of_apply hnumeric h
  exact Json.exists_ofDouble hx

end Constraint

def Operator.isArithmetic : Operator → Bool
  | add | subtract | multiply | divide | min | max => true
  | set | append | prepend | remove | toggle => false

namespace Expression

variable {operator : Operator} {op : String} {current result : Json} {n : Number}

theorem number_of_applyOperator (harithmetic : operator.isArithmetic = true)
    (h : applyOperator operator op current (.num n) = .ok result) : ∃ m, result = .num m := by
  have hnumber {f : Double → Double → Except ExpressionError Double}
      (h : arithmetic op current (.num n) f = .ok result) : ∃ m, result = .num m := by
    obtain ⟨x, hx, rfl⟩ := ofDouble_of_arithmetic h
    exact Json.exists_ofDouble hx
  unfold applyOperator at h
  cases operator with
  | add => cases current <;> exact hnumber h
  | subtract | multiply | divide | min | max => exact hnumber h
  | set | append | prepend | remove | toggle => cases harithmetic

end Expression

namespace Change

-- The last thing that a change does is to compute a number: its last constraint is one of numbers,
-- or it has none, and the operation is one with a number.
def EndsNumeric (c : Change) : Prop :=
  match c.constraints.getLast? with
  | some constraint => constraint.isNumeric = true
  | none => (∃ operator, Operator.ofName? c.op = some operator ∧ operator.isArithmetic = true) ∧
      ∃ n, c.value = .num n

variable {c : Change} {constraint : Constraint} {current result : Json}

-- The last constraint makes the result, of whatever has come before.
theorem apply_last (hlast : c.constraints.getLast? = some constraint) (h : c.apply current = .ok result) :
    ∃ value, constraint.apply value = .ok result := by
  obtain ⟨earlier, hearlier⟩ := List.getLast?_eq_some_iff.1 hlast
  unfold apply at h
  rw [hearlier] at h
  split at h
  · cases h
  · obtain ⟨computed, -, h⟩ := ok_of_bind h
    rw [List.foldlM_append] at h
    obtain ⟨value, -, h⟩ := ok_of_bind h
    obtain ⟨made, hmade, h⟩ := ok_of_bind h
    cases h
    exact ⟨value, hmade⟩

theorem number_of_apply (hends : c.EndsNumeric) (h : c.apply current = .ok result) : ∃ n, result = .num n := by
  unfold EndsNumeric at hends
  split at hends
  · next constraint hlast =>
    obtain ⟨value, hvalue⟩ := apply_last hlast h
    exact Constraint.number_of_apply hends hvalue
  · next hnone =>
    obtain ⟨⟨operator, hoperator, harithmetic⟩, n, hn⟩ := hends
    unfold apply at h
    rw [hoperator, hn, List.getLast?_eq_none_iff.1 hnone] at h
    obtain ⟨computed, hcomputed, h⟩ := ok_of_bind h
    cases h
    exact Expression.number_of_applyOperator harithmetic hcomputed

end Change

namespace Expression

variable {json current result : Json} {c : Change}

-- A change that was read, whatever its constraints and the value that it is applied to, gives a number if the last
-- thing it does is to compute one; and if that is to clamp it, the number is within the bounds.
theorem numbers_within_bounds (h : ofJson json = .ok (.change c)) (hresult : c.apply current = .ok result) :
    (c.EndsNumeric → ∃ n, result = .num n) ∧
    ∀ min max, c.constraints.getLast? = some (.clamp min max) →
      ∃ n, result = .num n ∧ Constraint.Bounds min max n.toDouble := by
  refine ⟨fun hends => Change.number_of_apply hends hresult, fun min max hlast => ?_⟩
  have hformed : (Expression.change c).Formed := formed_of_ofJson h
  obtain ⟨value, hvalue⟩ := Change.apply_last hlast hresult
  exact Constraint.clamp_bounds (hformed.constraints _ (List.mem_of_getLast? hlast)) hvalue

-- A sum that is too large for a double, brought back below one hundred.
section Overflow

def largest : Number := .float (Double.Finite.max false)

def capped : Change where
  op := "add"
  value := .num largest
  constraints := [.round none, .clamp (some 0) (some 100)]

theorem numbers_within_bounds_capped : ofJson (change capped).toJson = .ok (.change capped) ∧
    ∃ n, capped.apply (.num largest) = .ok (.num n) ∧ n.toDouble.le 100 = true ∧
      Double.le 0 n.toDouble = true := by
  have hlow : (0 : Double).isFinite = true := by decide +kernel
  have hhigh : (100 : Double).isFinite = true := by decide +kernel
  have huncrossed : Double.le 0 100 = true := by decide +kernel
  have hbounds : (Constraint.clamp (some 0) (some 100)).Formed :=
    ⟨fun _ h => Option.mem_some_iff.1 h ▸ hlow, fun _ h => Option.mem_some_iff.1 h ▸ hhigh⟩
  have hformed : capped.Formed :=
    ⟨by decide, List.forall_mem_cons.2 ⟨fun _ h => (nomatch h), List.forall_mem_singleton.2 hbounds⟩⟩
  have hread : ofJson (change capped).toJson = .ok (.change capped) := reads (e := change capped) hformed
  have hok : (capped.apply (.num largest)).isOk = true := by decide +kernel
  cases hresult : capped.apply (.num largest) with
  | error e =>
      rw [hresult] at hok
      cases hok
  | ok result =>
      obtain ⟨n, rfl, hbounds⟩ := (numbers_within_bounds hread hresult).2 (some 0) (some 100) rfl
      exact ⟨hread, n, rfl, hbounds.upper 100 rfl,
        hbounds.lower 0 rfl fun _ h => Option.mem_some_iff.1 h ▸ huncrossed⟩

end Overflow

end Expression

end SceneLink
