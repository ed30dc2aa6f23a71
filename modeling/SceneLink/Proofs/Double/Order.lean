import SceneLink.Proofs.Double.Whole

namespace SceneLink.Double

section Order

variable (x y : Finite)

theorem le_finite : le (finite x) (finite y) = true ↔ x.signed ≤ y.signed := by
  unfold le
  simp only [lt, same, Bool.or_eq_true, decide_eq_true_eq]
  omega

theorem max_finite : max (finite x) (finite y) = finite (if x.signed < y.signed then y else x) := by
  change (if lt (finite x) (finite y) = true then finite y else finite x) = _
  rw [lt_finite]
  by_cases h : x.signed < y.signed <;> simp [h]

theorem min_finite : min (finite x) (finite y) = finite (if y.signed < x.signed then y else x) := by
  change (if lt (finite y) (finite x) = true then finite y else finite x) = _
  rw [lt_finite]
  by_cases h : y.signed < x.signed <;> simp [h]

theorem isZero_finite : (finite x).isZero = true ↔ x.units = 0 := by
  change decide (x.signed = (Finite.zero false).signed) = true ↔ _
  rw [decide_eq_true_eq]
  unfold Finite.signed
  change (if x.negative = true then -(x.units : Int) else x.units) = 0 ↔ _
  split <;> omega

-- The order sees no sign of a zero.
theorem le_congr_right {x y : Finite} (h : x.signed = y.signed) (z : Double) : z.le (finite x) = z.le (finite y) := by
  cases z <;> simp [le, lt, same, h]

theorem le_congr_left {x y : Finite} (h : x.signed = y.signed) (z : Double) : (finite x).le z = (finite y).le z := by
  cases z <;> simp [le, lt, same, h]

end Order

section Nan

theorem exists_of_isFinite {x : Double} (h : x.isFinite = true) : ∃ f, x = finite f := by
  cases x with
  | finite f => exact ⟨f, rfl⟩
  | _ => cases h

theorem finite_add_ne_nan (x : Finite) {y : Double} (hy : y ≠ nan) : finite x + y ≠ nan := by
  cases y with
  | nan => exact absurd rfl hy
  | infinite negative =>
      change infinite negative ≠ nan
      exact nofun
  | finite y =>
      change x.add y ≠ nan
      unfold Finite.add
      dsimp only
      split
      · exact nofun
      · exact ofUnits_ne_nan _ _ _

theorem finite_sub_ne_nan (x y : Finite) : finite x - finite y ≠ nan :=
  finite_add_ne_nan x (y := finite { y with negative := !y.negative }) nofun

theorem mul_finite_eq_nan_iff {x : Double} (hx : x ≠ nan) (y : Finite) :
    x * finite y = nan ↔ x.isFinite = false ∧ (finite y).isZero = true := by
  rw [isZero_finite]
  cases x with
  | nan => exact absurd rfl hx
  | infinite negative =>
      change (if y.units = 0 then nan else infinite (negative != y.negative)) = nan ↔ _
      split
      · next hzero => exact ⟨fun _ => ⟨rfl, hzero⟩, fun _ => rfl⟩
      · next hzero => exact ⟨nofun, fun h => absurd h.2 hzero⟩
  | finite x => exact ⟨fun h => absurd h (ofUnits_ne_nan _ _ _), fun h => nomatch h.1⟩

end Nan

-- Sums and products of numbers that are far from the largest one.
section Sizes

theorem two_pow_units (k : Nat) : 2 ^ (1074 + k) = one * 2 ^ k := by
  unfold one
  rw [← Nat.pow_add]

-- A finite number of at most two to the power `k`.
def Within (k : Nat) (x : Double) : Prop := Below (2 ^ (1074 + k)) x

variable {x y : Double} {i j k : Nat}

theorem Within.mono (hx : Within i x) (hle : i ≤ k) : Within k x := by
  obtain ⟨f, rfl, hf⟩ := hx
  exact ⟨f, rfl, Nat.le_trans hf (Nat.pow_le_pow_right Nat.two_pos (Nat.add_le_add_left hle 1074))⟩

theorem Within.isFinite (hx : Within k x) : x.isFinite = true := Below.isFinite hx

theorem within_ofInt {n : Int} (hn : n.natAbs ≤ 2 ^ 53) (hk : n.natAbs ≤ 2 ^ k) : Within k (ofInt n) := by
  obtain ⟨f, hf, -, hunits⟩ := ofInt_exact hn
  refine ⟨f, hf, ?_⟩
  rw [hunits, two_pow_units, Nat.mul_comm]
  exact Nat.mul_le_mul_left one hk

theorem within_neg (hx : Within k x) : Within k (-x) := by
  obtain ⟨f, rfl, hf⟩ := hx
  exact ⟨{ f with negative := !f.negative }, rfl, hf⟩

theorem within_add (hk : k ≤ 1021) (hx : Within k x) (hy : Within k y) : Within (k + 2) (x + y) := by
  obtain ⟨f, rfl, hf⟩ := hx
  obtain ⟨g, rfl, hg⟩ := hy
  change Below _ (f.add g)
  unfold Finite.add
  dsimp only
  split
  · exact ⟨_, rfl, Nat.zero_le _⟩
  · refine below_ofUnits Nat.one_pos (two_pow_le_maxUnits (by omega)) ?_
    have hsum : (f.signed + g.signed).natAbs ≤ f.units + g.units := by
      unfold Finite.signed
      split <;> split <;> omega
    have hpow : 2 ^ (1074 + (k + 2)) = 4 * 2 ^ (1074 + k) := by rw [← Nat.add_assoc, Nat.pow_add, Nat.mul_comm]
    have hone : 1 ≤ 2 ^ (1074 + k) := Nat.one_le_two_pow
    rw [hpow]
    omega

theorem within_sub (hk : k ≤ 1021) (hx : Within k x) (hy : Within k y) : Within (k + 2) (x - y) :=
  within_add hk hx (within_neg hy)

theorem within_mul (hk : i + j < k ∧ k ≤ 1023) (hx : Within i x) (hy : Within j y) : Within k (x * y) := by
  obtain ⟨f, rfl, hf⟩ := hx
  obtain ⟨g, rfl, hg⟩ := hy
  have hexact : f.units * g.units ≤ 2 ^ (i + j) * one * one := by
    calc f.units * g.units ≤ 2 ^ (1074 + i) * 2 ^ (1074 + j) := Nat.mul_le_mul hf hg
      _ = 2 ^ (i + j) * one * one := by
        rw [two_pow_units, two_pow_units]
        ring
  have hunit : one ≤ 2 ^ (i + j) * one * one :=
    Nat.le_mul_of_pos_left one (Nat.mul_pos (Nat.two_pow_pos _) units_one_pos)
  have hbound : 2 * (2 ^ (i + j) * one * one) ≤ 2 ^ (1074 + k) * one := by
    calc 2 * (2 ^ (i + j) * one * one) = one * 2 ^ (i + j + 1) * one := by ring
      _ ≤ one * 2 ^ k * one :=
        Nat.mul_le_mul_right one (Nat.mul_le_mul_left one (Nat.pow_le_pow_right Nat.two_pos hk.1))
      _ = 2 ^ (1074 + k) * one := by rw [two_pow_units]
  refine below_ofUnits units_one_pos (two_pow_le_maxUnits (by omega)) ?_
  generalize 2 ^ (1074 + k) * one = bound at hbound
  generalize 2 ^ (i + j) * one * one = exact at hexact hunit hbound
  generalize f.units * g.units = num at hexact
  generalize one = unit at hunit
  omega

theorem within_clamp (hx : x ≠ nan) : Within 0 (x.clamp 0 1) := by
  obtain ⟨zero, hzero, -⟩ := ofInt_exact (n := 0) (by decide)
  obtain ⟨one, hone, -⟩ := ofInt_exact (n := 1) (by decide)
  have hzero : (0 : Double) = finite zero := hzero
  have hone : (1 : Double) = finite one := hone
  have hleast : Within 0 0 := within_ofInt (n := 0) (by decide) (by decide)
  have hmost : Within 0 1 := within_ofInt (n := 1) (by decide) (by decide)
  unfold clamp
  split
  · exact hleast
  · next hlow =>
    split
    · exact hmost
    · next hhigh =>
      cases x with
      | nan => exact absurd rfl hx
      | infinite negative =>
          rw [hzero] at hlow
          rw [hone] at hhigh
          cases negative with
          | true => exact absurd rfl hlow
          | false => exact absurd rfl hhigh
      | finite x =>
          have hzeros : zero.signed = 0 := by
            rw [signed_of_ofInt (n := 0) (by decide) hzero, Int.zero_mul]
          have hones : one.signed = Double.one := by
            rw [signed_of_ofInt (n := 1) (by decide) hone, Int.one_mul]
          rw [hzero, lt_finite, hzeros, decide_eq_true_eq] at hlow
          rw [hone, lt_finite, hones, decide_eq_true_eq] at hhigh
          refine ⟨x, rfl, ?_⟩
          rw [two_pow_units, Nat.pow_zero, Nat.mul_one]
          cases hsign : x.negative with
          | true =>
              rw [Finite.signed, if_pos hsign] at hlow
              omega
          | false =>
              rw [Finite.signed, if_neg (by rw [hsign]; exact Bool.false_ne_true)] at hhigh
              omega

end Sizes

end SceneLink.Double
