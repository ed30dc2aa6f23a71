import SceneLink.Json.Basic
import SceneLink.Proofs.Double.Rounding

namespace SceneLink

namespace Double

private theorem nearest_of_isShort {units : Nat} (h : IsShort units) : nearest units 1 = units := by
  have hshort : units % gap units 1 = 0 := by
    unfold gap
    rw [Nat.one_mul, Nat.div_one]
    exact h
  have hpos : 0 < gap units 1 := Nat.mul_pos Nat.one_pos (Nat.two_pow_pos _)
  have hgap : 2 ^ (bitLength (units / 1) - 53) = gap units 1 := (Nat.one_mul _).symm
  rw [nearest_eq, hgap, if_neg (by omega), Nat.div_mul_cancel (Nat.dvd_of_mod_eq_zero hshort)]

variable {m n : Int}

theorem ofInt_exact (hn : n.natAbs ≤ 2 ^ 53) : ∃ x : Finite, ofInt n = finite x ∧
    x.negative = decide (n < 0) ∧ x.units = n.natAbs * one := by
  have hnearest : nearest (n.natAbs * one) 1 = n.natAbs * one := nearest_of_isShort (isShort_mul_two_pow hn)
  have hlargest : 2 ^ 53 * one ≤ maxUnits := by decide +kernel
  have hbound : n.natAbs * one ≤ maxUnits := Nat.le_trans (Nat.mul_le_mul_right one hn) hlargest
  obtain ⟨x, hx, hsign, hunits⟩ := ofUnits_eq_finite (decide (n < 0)) (hnearest ▸ hbound)
  exact ⟨x, hx, hsign, hunits.trans hnearest⟩

theorem ofInt_word (hn : n.natAbs < 2 ^ 64) :
    ∃ x : Finite, ofInt n = finite x ∧ x.units = nearest (n.natAbs * one) 1 := by
  have hword : n.natAbs * one ≤ 2 ^ 1138 :=
    Nat.le_trans (Nat.mul_le_mul_right one (Nat.le_of_lt hn)) (by decide +kernel)
  have hnum : n.natAbs * one * (2 ^ 53 + 1) + 1 * 2 ^ 52 ≤ maxUnits * 1 * 2 ^ 53 :=
    Nat.le_trans (Nat.add_le_add_right (Nat.mul_le_mul_right _ hword) _) (by decide +kernel)
  obtain ⟨x, hx, -, hunits⟩ := ofUnits_eq_finite (decide (n < 0)) (nearest_le_of_mul_le Nat.one_pos hnum)
  exact ⟨x, hx, hunits⟩

theorem signed_of_ofInt (hn : n.natAbs ≤ 2 ^ 53) {x : Finite} (hx : ofInt n = finite x) :
    x.signed = n * one := by
  obtain ⟨y, hy, hsign, hunits⟩ := ofInt_exact hn
  cases hx.symm.trans hy
  unfold Finite.signed
  rw [hsign, hunits]
  by_cases hneg : n < 0
  · rw [if_pos (decide_eq_true hneg)]
    have habs : (n.natAbs : Int) = -n := by omega
    rw [Nat.cast_mul, habs, Int.neg_mul, Int.neg_neg]
  · rw [if_neg (by simpa using hneg)]
    have habs : (n.natAbs : Int) = n := by omega
    rw [Nat.cast_mul, habs]

private theorem signed_neg (x : Finite) : Finite.signed { x with negative := !x.negative } = -x.signed := by
  unfold Finite.signed
  cases x.negative <;> simp

private theorem ofInt_zero : ofInt 0 = finite (Finite.zero false) := by decide +kernel

-- The exact difference is what is rounded, whether it is exact as a double or not.
theorem sub_ofInt (hm : m.natAbs ≤ 2 ^ 53) (hn : n.natAbs ≤ 2 ^ 53) : ofInt m - ofInt n = ofInt (m - n) := by
  obtain ⟨x, hx, hsign, hunits⟩ := ofInt_exact hm
  obtain ⟨y, hy, -, -⟩ := ofInt_exact hn
  have hsum : x.signed + Finite.signed { y with negative := !y.negative } = (m - n) * one := by
    rw [signed_neg, signed_of_ofInt hm hx, signed_of_ofInt hn hy, Int.sub_mul, Int.sub_eq_add_neg]
  have hone : (0 : Int) < one := Int.natCast_pos.2 units_one_pos
  rw [hx, hy]
  change x.add { y with negative := !y.negative } = _
  unfold Finite.add
  dsimp only
  rw [hsum]
  by_cases hzero : m - n = 0
  · have hpositive : (x.negative && !y.negative && decide (x.units = 0)) = false := by
      by_cases hm0 : m = 0
      · rw [hsign, hm0]
        rfl
      · have hne : x.units ≠ 0 := by
          rw [hunits]
          exact Nat.ne_of_gt (Nat.mul_pos (Int.natAbs_pos.2 hm0) units_one_pos)
        rw [decide_eq_false hne, Bool.and_false]
    rw [hzero, Int.zero_mul, if_pos rfl, hpositive, ofInt_zero]
  · have hne : (m - n) * one ≠ 0 := Int.mul_ne_zero hzero (Int.ne_of_gt hone)
    have hneg : ((m - n) * one < 0) = (m - n < 0) := by
      refine propext ⟨fun h => ?_, fun h => Int.mul_neg_of_neg_of_pos h hone⟩
      exact Int.not_le.1 fun hle => absurd (Int.mul_nonneg hle (Int.le_of_lt hone)) (Int.not_le.2 h)
    rw [if_neg hne, Int.natAbs_mul, Int.natAbs_natCast]
    unfold ofInt
    simp only [hneg]

-- The integer that a double stands for, without what follows the point.
def toInt : Double → Int
  | finite x => x.truncated
  | _ => 0

theorem toInt_ofInt (hn : n.natAbs ≤ 2 ^ 53) : (ofInt n).toInt = n := by
  obtain ⟨x, hx, hsign, hunits⟩ := ofInt_exact hn
  rw [hx]
  change x.truncated = n
  unfold Finite.truncated
  rw [hsign, hunits, Nat.mul_div_cancel _ units_one_pos]
  by_cases hneg : n < 0
  · rw [if_pos (decide_eq_true hneg)]
    omega
  · rw [if_neg (by simpa using hneg)]
    omega

theorem lt_finite (x y : Finite) : lt (finite x) (finite y) = decide (x.signed < y.signed) := rfl

theorem Finite.signed_bounds {x : Finite} {largest : Nat} (h : x.units ≤ largest) :
    ¬x.signed < -(largest : Int) ∧ ¬(largest : Int) < x.signed := by
  unfold signed
  cases x.negative <;> simp <;> omega

theorem Finite.signed_max (negative : Bool) :
    (Finite.max negative).signed = if negative then -(maxUnits : Int) else maxUnits := rfl

private theorem saturate_finite (x : Finite) : saturate (finite x) = finite x := by
  obtain ⟨hlow, hhigh⟩ := Finite.signed_bounds x.bounded
  unfold saturate clamp
  rw [lt_finite, lt_finite, Finite.signed_max, Finite.signed_max, if_pos rfl, decide_eq_false hlow]
  rw [if_neg Bool.false_ne_true, if_neg Bool.false_ne_true, decide_eq_false hhigh]
  rfl

theorem saturate_of_ne_nan {x : Double} (hx : x ≠ nan) : ∃ y : Finite, x.saturate = finite y := by
  cases x with
  | nan => exact absurd rfl hx
  | infinite negative => cases negative <;> exact ⟨_, rfl⟩
  | finite x => exact ⟨x, saturate_finite x⟩

end Double

theorem Number.isFinite_toDouble (n : Number) : n.toDouble.isFinite = true := by
  cases n with
  | float x => rfl
  | int n low high =>
      obtain ⟨x, hx, -⟩ := Double.ofInt_word (n := n) (by omega)
      change (Double.ofInt n).isFinite = true
      rw [hx]
      rfl

theorem Number.toDouble_ne_nan (n : Number) : n.toDouble ≠ .nan := by
  cases n with
  | int n low high => exact Double.ofUnits_ne_nan _ _ _
  | float x => exact nofun

namespace Json

theorem double?_ofSmall (n : Int) (h : n.natAbs < 2 ^ 53) :
    (ofSmall n h).double? = some (Double.ofInt n) := rfl

theorem ofDouble_finite (x : Double.Finite) : ofDouble (.finite x) =
    if h : x.isWhole ∧ x.truncated.natAbs < 2 ^ 53 then ofSmall x.truncated h.2 else num (.float x) := by
  unfold ofDouble
  rw [Double.saturate_finite]

theorem exists_ofDouble {x : Double} (hx : x ≠ .nan) : ∃ n, ofDouble x = num n := by
  obtain ⟨y, hy⟩ := Double.saturate_of_ne_nan hx
  unfold ofDouble
  rw [hy]
  dsimp only
  split <;> exact ⟨_, rfl⟩

theorem double?_ofDouble {n : Int} (hn : n.natAbs ≤ 2 ^ 53) :
    (Json.ofDouble (Double.ofInt n)).double? = some (Double.ofInt n) := by
  obtain ⟨x, hx, -⟩ := Double.ofInt_exact hn
  have htruncated : x.truncated = n := by
    have hint := Double.toInt_ofInt hn
    rwa [hx] at hint
  rw [hx, ofDouble_finite]
  by_cases hsmall : x.isWhole ∧ x.truncated.natAbs < 2 ^ 53
  · rw [dif_pos hsmall]
    rw [double?_ofSmall, htruncated, hx]
  · rw [dif_neg hsmall]
    rfl

end Json

end SceneLink
