import SceneLink.Json.Numeral
import SceneLink.Json.Printer
import SceneLink.Proofs.Double.Rounding

namespace SceneLink.Json

open Double

theorem powerOfTen_eq_finite {k : Nat} (hk : k ≤ maxPower) :
    ∃ p : Finite, powerOfTen k = .finite p ∧ one ≤ 2 * p.units ∧
      p.units * 2 ^ 60 ≤ 10 ^ k * one * (2 ^ 60 + 129) := by
  have hone : 1 ≤ 10 ^ k := Nat.one_le_pow _ _ (by decide)
  have hlarge : 2 ^ 59 ≤ one := by decide +kernel
  have hle : one ≤ 10 ^ k * one := Nat.le_mul_of_pos_left _ hone
  have hmax : 10 ^ k * one ≤ 10 ^ maxPower * one :=
    Nat.mul_le_mul_right _ (Nat.pow_le_pow_right (by decide) hk)
  have hdouble : powerOfTen k = ofUnits false (10 ^ k * one) 1 := by
    have htop : ¬((k : Int) + Decimal.digitCount 1 < -330) ∧
        ¬(330 < (k : Int) + Decimal.digitCount 1) := by
      have : Decimal.digitCount 1 = 1 := rfl
      simp only [maxPower] at hk
      omega
    unfold powerOfTen Decimal.toDouble
    simp only [Nat.one_ne_zero, false_or, if_neg htop.1, if_neg htop.2]
    change ofUnits false (1 * 10 ^ k * one) 1 = _
    rw [Nat.one_mul]
  have hsmall : 10 ^ maxPower * one * (2 ^ 53 + 1) + 1 * 2 ^ 52 ≤ maxUnits * 1 * 2 ^ 53 := by
    decide +kernel
  have hfits : nearest (10 ^ k * one) 1 ≤ maxUnits := by
    apply nearest_le_of_mul_le Nat.one_pos
    exact Nat.le_trans (Nat.add_le_add_right (Nat.mul_le_mul_right _ hmax) _) hsmall
  obtain ⟨p, hp, -, hu⟩ := ofUnits_eq_finite false hfits
  have hhalf : ∀ exact unit rounded : Nat, 2 ^ 59 ≤ unit → unit ≤ exact →
      exact * 2 ^ 53 ≤ rounded * 2 ^ 53 + exact + 2 ^ 52 → unit ≤ 2 * rounded := by
    intro exact unit rounded h1 h2 h3
    omega
  have hlow := le_nearest_mul (10 ^ k * one) Nat.one_pos
  have hhigh := nearest_mul_le (10 ^ k * one) Nat.one_pos
  rw [Nat.mul_one, Nat.one_mul] at hlow hhigh
  refine ⟨p, hdouble.trans hp, ?_, ?_⟩
  · exact hu ▸ hhalf _ _ _ hlarge hle hlow
  · exact hu ▸ rounded_mul_le (Nat.le_trans hlarge hle) hhigh

theorem ofInt_eq_finite {n : Nat} (hn : n ≤ maxWord) :
    ∃ a : Finite, Double.ofInt n = .finite a ∧ a.units ≤ 2 ^ 1139 ∧
      a.units * 2 ^ 53 ≤ n * one * (2 ^ 53 + 1) + 2 ^ 52 := by
  have hword : n * one ≤ 2 ^ 1138 :=
    Nat.le_trans (Nat.mul_le_mul_right one hn) (by decide +kernel)
  have hnum : n * one * (2 ^ 53 + 1) + 1 * 2 ^ 52 ≤ 2 ^ 1139 * 1 * 2 ^ 53 :=
    Nat.le_trans (Nat.add_le_add_right (Nat.mul_le_mul_right _ hword) _) (by decide +kernel)
  have hle : nearest (n * one) 1 ≤ 2 ^ 1139 := nearest_le_of_mul_le Nat.one_pos hnum
  obtain ⟨a, ha, -, hu⟩ := ofUnits_eq_finite ((n : Int) < 0)
    (Nat.le_trans hle (two_pow_le_maxUnits (k := 1139) (by decide)))
  refine ⟨a, ha, hu ▸ hle, ?_⟩
  have := nearest_mul_le (n * one) Nat.one_pos
  rwa [hu, ← Nat.mul_one (nearest (n * one) 1), ← Nat.one_mul (2 ^ 52)]

theorem scaled_negSucc_isFinite {n : Nat} (hn : n ≤ maxWord) (e : Nat) :
    (scaled n (.negSucc e)).isFinite := by
  obtain ⟨a, ha, hbound, -⟩ := ofInt_eq_finite hn
  have hx : Below (2 ^ 1139) (Double.ofInt n) := ⟨a, ha, hbound⟩
  unfold scaled
  dsimp only
  split
  · next hplaces =>
    obtain ⟨p, hp, hunits, -⟩ := powerOfTen_eq_finite hplaces
    rw [hp]
    exact (below_div (by decide) hx hunits).isFinite
  · obtain ⟨p, hp, hunits, -⟩ := powerOfTen_eq_finite (Nat.le_refl maxPower)
    obtain ⟨q, hq, hqunits, -⟩ :=
      powerOfTen_eq_finite (Nat.min_le_right (e + 1 - maxPower) maxPower)
    rw [hp, hq]
    exact (below_div (by decide) (below_div (by decide) hx hunits) hqunits).isFinite

-- A product below this magnitude is finite, although both factors and the product are rounded.
def headroom : Nat := (2 ^ 53 - 5) * 2 ^ 2045

theorem scaled_ofNat_isFinite {n e : Nat} (hn : n ≤ maxWord)
    (hroom : n * 10 ^ e * one ≤ headroom) : (scaled n (.ofNat e)).isFinite := by
  unfold scaled
  dsimp only
  split
  · rfl
  · next hzero =>
    have he : e ≤ maxPower := by
      by_contra hlt
      have hpow : 10 ^ (maxPower + 1) ≤ 10 ^ e := Nat.pow_le_pow_right (by decide) (by omega)
      have hle : 10 ^ (maxPower + 1) * one ≤ n * 10 ^ e * one :=
        Nat.mul_le_mul_right one (Nat.le_trans hpow (Nat.le_mul_of_pos_left _ (by omega)))
      have : headroom < 10 ^ (maxPower + 1) * one := by decide +kernel
      omega
    obtain ⟨a, ha, -, hunits⟩ := ofInt_eq_finite hn
    obtain ⟨p, hp, -, hpunits⟩ := powerOfTen_eq_finite he
    rw [ha, hp]
    change (mul (.finite a) (.finite p)).isFinite
    -- Each factor has been rounded, and so is the product.
    have hlarge : 2 ^ 59 ≤ n * one :=
      Nat.le_trans (by decide +kernel : 2 ^ 59 ≤ one) (Nat.le_mul_of_pos_left _ (by omega))
    have ha' := rounded_mul_le hlarge hunits
    have hprod : a.units * p.units * (2 ^ 60 * 2 ^ 60) ≤
        headroom * one * ((2 ^ 60 + 129) * (2 ^ 60 + 129)) := by
      calc a.units * p.units * (2 ^ 60 * 2 ^ 60)
          = (a.units * 2 ^ 60) * (p.units * 2 ^ 60) := by ring
        _ ≤ (n * one * (2 ^ 60 + 129)) * (10 ^ e * one * (2 ^ 60 + 129)) := Nat.mul_le_mul ha' hpunits
        _ = (n * 10 ^ e * one) * one * ((2 ^ 60 + 129) * (2 ^ 60 + 129)) := by ring
        _ ≤ headroom * one * ((2 ^ 60 + 129) * (2 ^ 60 + 129)) := by gcongr
    refine (below_ofUnits units_one_pos (Nat.le_refl maxUnits) ?_).isFinite
    have hconst : headroom * one * ((2 ^ 60 + 129) * (2 ^ 60 + 129)) * (2 ^ 53 + 1)
        + one * 2 ^ 52 * (2 ^ 60 * 2 ^ 60) ≤ maxUnits * one * 2 ^ 53 * (2 ^ 60 * 2 ^ 60) := by
      decide +kernel
    have hscaled := Nat.mul_le_mul_right (2 ^ 53 + 1) hprod
    apply Nat.le_of_mul_le_mul_right (c := 2 ^ 60 * 2 ^ 60) _ (by decide)
    calc (a.units * p.units * (2 ^ 53 + 1) + one * 2 ^ 52) * (2 ^ 60 * 2 ^ 60)
        = a.units * p.units * (2 ^ 60 * 2 ^ 60) * (2 ^ 53 + 1)
          + one * 2 ^ 52 * (2 ^ 60 * 2 ^ 60) := by ring
      _ ≤ headroom * one * ((2 ^ 60 + 129) * (2 ^ 60 + 129)) * (2 ^ 53 + 1)
          + one * 2 ^ 52 * (2 ^ 60 * 2 ^ 60) := Nat.add_le_add_right hscaled _
      _ ≤ maxUnits * one * 2 ^ 53 * (2 ^ 60 * 2 ^ 60) := hconst

end SceneLink.Json
