import SceneLink.Proofs.Double.Rounding

namespace SceneLink.Decimal

open Double

def AtMost (d : Decimal) (units : Nat) : Prop :=
  d.digits * 10 ^ d.exponent.toNat * one ≤ units * 10 ^ (-d.exponent).toNat

theorem AtMost.mono {d : Decimal} {low high : Nat} (h : d.AtMost low) (hle : low ≤ high) :
    d.AtMost high :=
  Nat.le_trans h (Nat.mul_le_mul_right _ hle)

private theorem atMost_tenth {d : Decimal} {units : Nat} (h : d.AtMost units) (h10 : d.digits % 10 = 0) :
    AtMost ⟨d.digits / 10, d.exponent + 1⟩ units := by
  obtain ⟨digits, exponent⟩ := d
  obtain ⟨q, rfl⟩ : ∃ q, digits = 10 * q := ⟨digits / 10, by dsimp only at h10; omega⟩
  have hq : 10 * q / 10 = q := by omega
  unfold AtMost at *
  dsimp only at *
  rw [hq]
  cases exponent with
  | ofNat e =>
      have h1 : (Int.ofNat e + 1).toNat = e + 1 := rfl
      have h2 : (-(Int.ofNat e + 1)).toNat = 0 := rfl
      have h3 : (Int.ofNat e).toNat = e := rfl
      have h4 : (-Int.ofNat e).toNat = 0 := Int.toNat_neg_natCast e
      rw [h3, h4] at h
      rw [h1, h2]
      calc q * 10 ^ (e + 1) * one = 10 * q * 10 ^ e * one := by ring
        _ ≤ units * 10 ^ 0 := h
  | negSucc e =>
      have h1 : (Int.negSucc e + 1).toNat = 0 := by omega
      have h2 : (-(Int.negSucc e + 1)).toNat = e := by omega
      have h3 : (Int.negSucc e).toNat = 0 := by omega
      have h4 : (-Int.negSucc e).toNat = e + 1 := by omega
      rw [h3, h4] at h
      rw [h1, h2]
      apply Nat.le_of_mul_le_mul_left _ (by decide : 0 < 10)
      calc 10 * (q * 10 ^ 0 * one) = 10 * q * 10 ^ 0 * one := by ring
        _ ≤ units * 10 ^ (e + 1) := h
        _ = 10 * (units * 10 ^ e) := by ring

private theorem atMost_stripLoop (fuel : Nat) {d : Decimal} {units : Nat} (h : d.AtMost units) :
    (stripLoop fuel d).AtMost units := by
  induction fuel generalizing d with
  | zero => exact h
  | succ fuel ih =>
      unfold stripLoop
      split
      · next h10 => exact ih (atMost_tenth h h10.2)
      · exact h

private theorem stripLoop_digits_ne_zero (fuel : Nat) {d : Decimal} (h : d.digits ≠ 0) :
    (stripLoop fuel d).digits ≠ 0 := by
  induction fuel generalizing d with
  | zero => exact h
  | succ fuel ih =>
      unfold stripLoop
      split
      · next h10 => exact ih (d := ⟨d.digits / 10, d.exponent + 1⟩) (by dsimp only; omega)
      · exact h

theorem toDouble_ne_nan (negative : Bool) (d : Decimal) : d.toDouble negative ≠ .nan := by
  unfold toDouble
  dsimp only
  split
  · exact nofun
  · split
    · exact nofun
    · split <;> exact ofUnits_ne_nan _ _ _

theorem atMost_of_readsBack {units bound : Nat} {d : Decimal} (hpos : units ≠ 0)
    (h : readsBack units d = true) (hbound : (2 * units + 1) * 2 ^ 52 ≤ bound * (2 ^ 53 - 1)) :
    d.digits ≠ 0 ∧ d.AtMost bound := by
  have hrounded : ∀ num den, 0 < den → nearest num den = units → num ≤ bound * den := by
    intro num den hden hn
    have hlow := le_nearest_mul num hden
    rw [hn] at hlow
    apply Nat.le_of_mul_le_mul_right (c := 2 ^ 53 - 1) _ (by decide)
    calc num * (2 ^ 53 - 1) ≤ (2 * units + 1) * 2 ^ 52 * den := by
          rw [Nat.mul_sub, Nat.mul_one, Nat.sub_le_iff_le_add]
          calc num * 2 ^ 53 ≤ units * den * 2 ^ 53 + num + den * 2 ^ 52 := hlow
            _ = (2 * units + 1) * 2 ^ 52 * den + num := by ring
      _ ≤ bound * (2 ^ 53 - 1) * den := Nat.mul_le_mul_right den hbound
      _ = bound * den * (2 ^ 53 - 1) := by ring
  obtain ⟨digits, exponent⟩ := d
  unfold readsBack toDouble at h
  dsimp only at h
  split at h
  · next x hx =>
    have hx0 : x.units = units := of_decide_eq_true h
    split at hx
    · cases hx
      exact absurd hx0.symm hpos
    · next hzero =>
      split at hx
      · cases hx
      · refine ⟨fun h0 => hzero (.inl h0), ?_⟩
        unfold AtMost
        dsimp only
        cases exponent with
        | ofNat e =>
            have := hrounded _ 1 Nat.one_pos ((nearest_le_of_ofUnits_eq hx).symm.trans hx0)
            have h1 : (Int.ofNat e).toNat = e := rfl
            have h2 : (-Int.ofNat e).toNat = 0 := Int.toNat_neg_natCast e
            rw [h1, h2, Nat.pow_zero]
            exact this
        | negSucc e =>
            have hden : 0 < 10 ^ (e + 1) := Nat.pow_pos (by decide)
            have := hrounded _ _ hden ((nearest_le_of_ofUnits_eq hx).symm.trans hx0)
            have h1 : (Int.negSucc e).toNat = 0 := by omega
            have h2 : (-Int.negSucc e).toNat = e + 1 := by omega
            rw [h1, h2, Nat.pow_zero, Nat.mul_one]
            exact this
  · cases h

theorem readsBack_of_onGrid? {units count : Nat} {d : Decimal} (h : onGrid? units count = some d) :
    readsBack units d = true := by
  unfold onGrid? at h
  dsimp only at h
  split at h
  · next hlow hhigh =>
    split at h
    · exact Option.some.inj h ▸ hhigh
    · exact Option.some.inj h ▸ hlow
  · next hlow _ => exact Option.some.inj h ▸ hlow
  · next _ hhigh => exact Option.some.inj h ▸ hhigh
  · cases h

theorem atMost_neg {units factor places : Nat} (h : factor * one = 10 ^ places) :
    AtMost ⟨units * factor, -(places : Int)⟩ units := by
  unfold AtMost
  dsimp only
  rw [Int.toNat_neg_natCast, Int.neg_neg, Int.toNat_natCast, Nat.pow_zero, Nat.mul_one,
    Nat.mul_assoc, h]

private theorem exact_eq : ∃ factor places : Nat, factor * one = 10 ^ places ∧
    ∀ units, exact units = ⟨units * factor, -(places : Int)⟩ :=
  ⟨5 ^ 1074, 1074, by decide +kernel, fun _ => rfl⟩

theorem exact_spec {units : Nat} (h : units ≠ 0) :
    (exact units).digits ≠ 0 ∧ (exact units).AtMost units := by
  obtain ⟨factor, places, hfactor, heq⟩ := exact_eq
  rw [heq]
  refine ⟨Nat.mul_ne_zero h fun h0 => ?_, atMost_neg hfactor⟩
  rw [h0, Nat.zero_mul] at hfactor
  exact (Nat.pow_pos (by decide)).ne hfactor

theorem strip_spec {units : Nat} {d : Decimal} (h : d.digits ≠ 0 ∧ d.AtMost units) :
    (strip d).digits ≠ 0 ∧ (strip d).AtMost units :=
  ⟨stripLoop_digits_ne_zero _ h.1, atMost_stripLoop _ h.2⟩

private theorem le_of_bound {units bound : Nat} (h : (2 * units + 1) * 2 ^ 52 ≤ bound * (2 ^ 53 - 1)) :
    units ≤ bound := by
  omega

theorem shortest_spec {units bound : Nat} (hpos : units ≠ 0)
    (hbound : (2 * units + 1) * 2 ^ 52 ≤ bound * (2 ^ 53 - 1)) :
    (shortest units).digits ≠ 0 ∧ (shortest units).AtMost bound := by
  unfold shortest
  apply strip_spec
  cases hfind : (List.range 17).findSome? fun n => onGrid? units (n + 1) with
  | none =>
      obtain ⟨h0, hle⟩ := exact_spec hpos
      exact ⟨h0, hle.mono (le_of_bound hbound)⟩
  | some d =>
      obtain ⟨n, -, hn⟩ := List.exists_of_findSome?_eq_some hfind
      exact atMost_of_readsBack hpos (readsBack_of_onGrid? hn) hbound

theorem shortest_digits_ne_zero {units : Nat} (hpos : units ≠ 0) : (shortest units).digits ≠ 0 := by
  have hdouble : ∀ u : Nat, (2 * u + 1) * 2 ^ 52 ≤ 2 * (u + 1) * (2 ^ 53 - 1) := by
    intro u
    omega
  exact (shortest_spec hpos (hdouble units)).1

end SceneLink.Decimal
