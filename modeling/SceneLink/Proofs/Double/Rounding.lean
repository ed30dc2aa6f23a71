import SceneLink.Double.Arithmetic
import SceneLink.Double.Decimal
import Mathlib.Tactic.Ring
import Mathlib.Tactic.Linarith

namespace SceneLink.Double

theorem units_one_pos : 0 < one := by decide +kernel

-- The gap between candidates for `num / den`, over the denominator.
def gap (num den : Nat) : Nat := den * 2 ^ (bitLength (num / den) - 53)

-- The quotient is rounded to the nearer one of the candidates below and above it.
theorem nearest_eq (num den : Nat) : nearest num den =
    (if gap num den < 2 * (num % gap num den) ∨
        (2 * (num % gap num den) = gap num den ∧ num / gap num den % 2 = 1)
      then num / gap num den + 1 else num / gap num den) * 2 ^ (bitLength (num / den) - 53) := rfl

theorem nearest_gap (num : Nat) {den : Nat} (hden : 0 < den) :
    2 * (nearest num den * den) ≤ 2 * num + gap num den ∧
      2 * num ≤ 2 * (nearest num den * den) + gap num den := by
  have hgap : 0 < gap num den := Nat.mul_pos hden (Nat.two_pow_pos _)
  have hdiv := Nat.div_add_mod num (gap num den)
  have hmod := Nat.mod_lt num hgap
  have hmul : ∀ kept, kept * 2 ^ (bitLength (num / den) - 53) * den = gap num den * kept := by
    intro kept
    unfold gap
    ring
  have hup := Nat.mul_add_one (gap num den) (num / gap num den)
  rw [nearest_eq, hmul]
  split <;> omega

-- Beyond 53 bits the gap is a 2^52nd part of the quotient.
theorem gap_le (num den : Nat) : gap num den * 2 ^ 52 ≤ num + den * 2 ^ 52 := by
  unfold gap
  by_cases h : bitLength (num / den) ≤ 53
  · rw [Nat.sub_eq_zero_of_le h]
    omega
  · have hlarge : 2 ^ (bitLength (num / den) - 1) ≤ num / den := by
      by_contra hlt
      have := bitLength_le_iff.2 (Nat.lt_of_not_le hlt)
      omega
    have hexp : bitLength (num / den) - 53 + 52 = bitLength (num / den) - 1 := by omega
    calc den * 2 ^ (bitLength (num / den) - 53) * 2 ^ 52
        = den * 2 ^ (bitLength (num / den) - 1) := by rw [Nat.mul_assoc, ← Nat.pow_add, hexp]
      _ ≤ den * (num / den) := Nat.mul_le_mul_left den hlarge
      _ ≤ num := Nat.mul_div_le num den
      _ ≤ num + den * 2 ^ 52 := Nat.le_add_right _ _

theorem nearest_mul_le (num : Nat) {den : Nat} (hden : 0 < den) :
    nearest num den * den * 2 ^ 53 ≤ num * (2 ^ 53 + 1) + den * 2 ^ 52 := by
  have h := (nearest_gap num hden).1
  have hg := gap_le num den
  have := Nat.mul_le_mul_right (2 ^ 52) h
  linarith

theorem le_nearest_mul (num : Nat) {den : Nat} (hden : 0 < den) :
    num * 2 ^ 53 ≤ nearest num den * den * 2 ^ 53 + num + den * 2 ^ 52 := by
  have h := (nearest_gap num hden).2
  have hg := gap_le num den
  have := Nat.mul_le_mul_right (2 ^ 52) h
  linarith

-- For a quotient of at least 2^59 units a little more than the part absorbs the half unit.
theorem rounded_mul_le {exact rounded : Nat} (hlarge : 2 ^ 59 ≤ exact)
    (h : rounded * 2 ^ 53 ≤ exact * (2 ^ 53 + 1) + 2 ^ 52) :
    rounded * 2 ^ 60 ≤ exact * (2 ^ 60 + 129) := by
  linarith

theorem nearest_le_of_mul_le {num den bound : Nat} (hden : 0 < den)
    (h : num * (2 ^ 53 + 1) + den * 2 ^ 52 ≤ bound * den * 2 ^ 53) : nearest num den ≤ bound := by
  have hn := nearest_mul_le num hden
  have : nearest num den * (den * 2 ^ 53) ≤ bound * (den * 2 ^ 53) := by
    rw [← Nat.mul_assoc, ← Nat.mul_assoc]
    exact Nat.le_trans hn h
  exact Nat.le_of_mul_le_mul_right this (Nat.mul_pos hden (Nat.two_pow_pos _))

theorem ofUnits_eq_finite (negative : Bool) {num den : Nat} (h : nearest num den ≤ maxUnits) :
    ∃ x : Finite, ofUnits negative num den = finite x ∧ x.negative = negative ∧
      x.units = nearest num den := by
  unfold ofUnits
  rw [dif_pos h]
  exact ⟨_, rfl, rfl, rfl⟩

theorem nearest_le_of_ofUnits_eq {negative : Bool} {num den : Nat} {x : Finite}
    (h : ofUnits negative num den = finite x) : x.units = nearest num den := by
  unfold ofUnits at h
  split at h
  · cases h; rfl
  · cases h

theorem ofUnits_ne_nan (negative : Bool) (num den : Nat) : ofUnits negative num den ≠ nan := by
  unfold ofUnits
  split <;> exact nofun

-- A finite number of at most `bound` units.
def Below (bound : Nat) (x : Double) : Prop := ∃ f : Finite, x = finite f ∧ f.units ≤ bound

theorem Below.isFinite {bound : Nat} {x : Double} (h : Below bound x) : x.isFinite := by
  obtain ⟨f, rfl, -⟩ := h
  rfl

theorem below_ofUnits {negative : Bool} {num den bound : Nat} (hden : 0 < den)
    (hb : bound ≤ maxUnits) (h : num * (2 ^ 53 + 1) + den * 2 ^ 52 ≤ bound * den * 2 ^ 53) :
    Below bound (ofUnits negative num den) := by
  have hn := nearest_le_of_mul_le hden h
  obtain ⟨f, hf, -, hu⟩ := ofUnits_eq_finite negative (Nat.le_trans hn hb)
  exact ⟨f, hf, hu ▸ hn⟩

theorem two_pow_le_maxUnits {k : Nat} (h : k ≤ 2097) : 2 ^ k ≤ maxUnits := by
  calc 2 ^ k ≤ 2 ^ 2097 := Nat.pow_le_pow_right (by decide) h
    _ ≤ maxUnits := by decide +kernel

theorem below_div {k : Nat} {x : Double} {y : Finite} (hk : k + 3 ≤ 2097)
    (hx : Below (2 ^ k) x) (hy : one ≤ 2 * y.units) : Below (2 ^ (k + 3)) (x / finite y) := by
  obtain ⟨f, rfl, hf⟩ := hx
  have hunits : y.units ≠ 0 := by
    intro h
    rw [h] at hy
    exact Nat.not_le.2 units_one_pos hy
  change Below _ (div (finite f) (finite y))
  simp only [div, if_neg hunits]
  refine below_ofUnits (by omega) (two_pow_le_maxUnits hk) ?_
  have h1 : f.units * one ≤ 2 ^ k * (2 * y.units) := Nat.mul_le_mul hf hy
  have h2 : 2 ^ (k + 3) = 2 ^ k * 8 := by rw [Nat.pow_add]
  have h3 : 1 ≤ 2 ^ k := Nat.one_le_two_pow
  have h4 : y.units ≤ 2 ^ k * y.units := Nat.le_mul_of_pos_left _ h3
  rw [h2]
  nlinarith

end SceneLink.Double
