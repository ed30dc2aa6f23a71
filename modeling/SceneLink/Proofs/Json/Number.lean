import SceneLink.Proofs.Double.Decimal
import SceneLink.Proofs.Json.Numeral
import SceneLink.Proofs.Text.Numeral

namespace SceneLink.Json

open Text
open Double (one)

-- The end of the text, or a character that ends an item.
def Closes (rest : List Char) : Prop := ∀ c ∈ rest.head?, c = ',' ∨ c = ']' ∨ c = '}'

theorem Closes.noDigit {rest : List Char} (h : Closes rest) : NoDigit rest := by
  intro c hc
  rcases h c hc with rfl | rfl | rfl <;> rfl

section Parts

structure Numeral where
  whole : List Char
  fraction : Option (List Char)
  exponent : Option Int

def fractionText : Option (List Char) → List Char
  | none => []
  | some ds => '.' :: ds

def exponentText : Option Int → List Char
  | none => []
  | some e => 'e' :: (if e < 0 then '-' else '+') :: Nat.toDigits 10 e.natAbs

def Numeral.text (m : Numeral) : List Char :=
  m.whole ++ (fractionText m.fraction ++ exponentText m.exponent)

structure Numeral.Proper (m : Numeral) : Prop where
  whole : Digits m.whole
  isWholePart : isWholePart m.whole = true
  fraction : ∀ ds, m.fraction = some ds → ds ≠ [] ∧ Digits ds

theorem readExponent_exponentText (exponent : Option Int) {rest : List Char} (h : Closes rest) :
    readExponent (exponentText exponent ++ rest) = some (exponent, rest) := by
  cases exponent with
  | none =>
      cases rest with
      | nil => rfl
      | cons c cs =>
          have hc : ¬(c = 'e' ∨ c = 'E') := by
            rcases h c rfl with rfl | rfl | rfl <;> decide
          simp only [exponentText, List.nil_append, readExponent, if_neg hc]
  | some e =>
      have hspan : spanDigits (Nat.toDigits 10 e.natAbs ++ rest) = (Nat.toDigits 10 e.natAbs, rest) :=
        spanDigits_append (digits_toDigits _) h.noDigit
      simp only [exponentText, List.cons_append, readExponent, true_or, if_true]
      by_cases hneg : e < 0
      · have habs : -((e.natAbs : Nat) : Int) = e := by omega
        simp only [if_pos hneg, splitSign, hspan, Nat.toDigits_ne_nil, if_false, if_true,
          ofDigits_toDigits, habs]
      · have habs : ((e.natAbs : Nat) : Int) = e := by omega
        simp only [if_neg hneg, splitSign, hspan, Nat.toDigits_ne_nil, if_false,
          ofDigits_toDigits, habs, Bool.false_eq_true]

private theorem noDigit_exponentText (exponent : Option Int) {rest : List Char} (h : Closes rest) :
    NoDigit (exponentText exponent ++ rest) := by
  cases exponent with
  | none => exact h.noDigit
  | some e => exact noDigit_cons rfl

theorem readFraction_fractionText {fraction : Option (List Char)} {exponent : Option Int}
    {rest : List Char} (hfraction : ∀ ds, fraction = some ds → ds ≠ [] ∧ Digits ds)
    (h : Closes rest) :
    readFraction (fractionText fraction ++ (exponentText exponent ++ rest)) =
      some (fraction, exponentText exponent ++ rest) := by
  cases fraction with
  | some ds =>
      obtain ⟨hne, hds⟩ := hfraction ds rfl
      have hspan := spanDigits_append hds (noDigit_exponentText exponent h)
      simp only [fractionText, List.cons_append, readFraction, hspan, if_neg hne]
  | none =>
      cases exponent with
      | some e => rfl
      | none =>
          cases rest with
          | nil => rfl
          | cons c cs =>
              rcases h c rfl with rfl | rfl | rfl <;> rfl

def signed (negative : Bool) (body : List Char) : List Char :=
  if negative then '-' :: body else body

theorem signed_append (negative : Bool) (body rest : List Char) :
    signed negative (body ++ rest) = signed negative body ++ rest := by
  cases negative <;> rfl

private theorem noDigit_tail (m : Numeral) {rest : List Char} (h : Closes rest) :
    NoDigit (fractionText m.fraction ++ (exponentText m.exponent ++ rest)) := by
  cases m.fraction with
  | none => exact noDigit_exponentText _ h
  | some ds => exact noDigit_cons rfl

-- A text that starts with a digit has no sign.
theorem readNumber_eq_of_digits {whole tail : List Char} (hwhole : Digits whole)
    (hpart : isWholePart whole = true) (negative : Bool) (htail : NoDigit tail) :
    readNumber (signed negative (whole ++ tail)) = (do
      let (fraction, cs) ← readFraction tail
      let (exponent, cs) ← readExponent cs
      let n ← number? negative whole fraction exponent
      return (n, cs)) := by
  have hspan := spanDigits_append hwhole htail
  cases negative with
  | true => simp only [signed, if_true, readNumber, hspan, hpart]
  | false =>
      cases whole with
      | nil => cases hpart
      | cons c cs =>
          have hc : c ≠ '-' := by
            rintro rfl
            exact absurd (hwhole '-' List.mem_cons_self) (by decide)
          simp only [signed, Bool.false_eq_true, if_false, readNumber]
          split
          · next heq => exact absurd (List.cons.inj heq).1 hc
          · simp only [hspan, hpart, if_true]

theorem readNumber_text {m : Numeral} (hm : m.Proper) (negative : Bool) {rest : List Char}
    (h : Closes rest) :
    readNumber (signed negative (m.text ++ rest)) =
      (number? negative m.whole m.fraction m.exponent).map (·, rest) := by
  have htext : m.text ++ rest =
      m.whole ++ (fractionText m.fraction ++ (exponentText m.exponent ++ rest)) := by
    simp only [Numeral.text, List.append_assoc]
  rw [htext, readNumber_eq_of_digits hm.whole hm.isWholePart negative (noDigit_tail m h),
    readFraction_fractionText hm.fraction h]
  simp only [Option.bind_eq_bind, Option.bind_some, readExponent_exponentText _ h]
  cases number? negative m.whole m.fraction m.exponent <;> rfl

end Parts

section Layout

def Numeral.ofLayout (ds : List Char) (e : Int) : Numeral :=
  if 0 ≤ e ∧ e < 16 then
    let fraction := ds.drop (e.toNat + 1)
    ⟨ds.take (e.toNat + 1) ++ List.replicate (e.toNat + 1 - ds.length) '0',
      some (if fraction = [] then ['0'] else fraction), none⟩
  else if -5 ≤ e ∧ e < 0 then
    ⟨['0'], some (List.replicate ((-e).toNat - 1) '0' ++ ds), none⟩
  else ⟨ds.take 1, if ds.drop 1 = [] then none else some (ds.drop 1), some e⟩

theorem layout_eq_text (ds : List Char) (e : Int) : layout ds e = (Numeral.ofLayout ds e).text := by
  unfold layout Numeral.ofLayout
  split
  · simp only [Numeral.text, fractionText, exponentText, List.append_nil]
  · split
    · simp [Numeral.text, fractionText, exponentText]
    · match ds with
      | [] => rfl
      | [d] => rfl
      | d :: c :: cs => rfl

private theorem isWholePart_cons {c : Char} (h : c ≠ '0') (cs : List Char) : isWholePart (c :: cs) = true := by
  unfold isWholePart
  split
  · next heq => cases heq
  · rfl
  · next heq =>
    cases heq
    simpa using h

theorem proper_ofLayout {c : Char} {cs : List Char} (hdigits : Digits (c :: cs)) (hc : c ≠ '0')
    (e : Int) : (Numeral.ofLayout (c :: cs) e).Proper := by
  unfold Numeral.ofLayout
  split
  · refine ⟨digits_append (digits_take hdigits _) (digits_replicate _), ?_, ?_⟩
    · exact isWholePart_cons hc _
    · intro ds hds
      cases hds
      split
      · exact ⟨by simp, digits_replicate 1⟩
      · next hne => exact ⟨hne, digits_drop hdigits _⟩
  · split
    · refine ⟨digits_replicate 1, rfl, fun ds hds => ?_⟩
      cases hds
      exact ⟨by simp, digits_append (digits_replicate _) hdigits⟩
    · refine ⟨digits_take hdigits 1, isWholePart_cons hc _, fun ds hds => ?_⟩
      dsimp only at hds
      split at hds
      · cases hds
      · next hne =>
        cases hds
        exact ⟨hne, digits_drop hdigits 1⟩

private theorem ofLayout_parts (ds : List Char) (e : Int) :
    ¬((Numeral.ofLayout ds e).fraction = none ∧ (Numeral.ofLayout ds e).exponent = none) := by
  unfold Numeral.ofLayout
  split
  · simp
  · split <;> simp

end Layout

section Gather

private theorem digitValue_le {c : Char} (h : isDigit c = true) : digitValue c ≤ 9 := by
  simp only [isDigit, Bool.and_eq_true, decide_eq_true_eq] at h
  have : c.toNat ≤ '9'.toNat := h.2
  unfold digitValue
  have h9 : '9'.toNat = 57 := rfl
  have h0 : '0'.toNat = 48 := rfl
  omega

private theorem ofDigitChars_lt (cs : List Char) (h : Digits cs) : Nat.ofDigitChars 10 cs 0 < 10 ^ cs.length := by
  induction cs with
  | nil => decide
  | cons c cs ih =>
      have hc : digitValue c ≤ 9 := digitValue_le (h c List.mem_cons_self)
      have hcs := ih fun d hd => h d (List.mem_cons_of_mem _ hd)
      rw [Nat.ofDigitChars_cons, Nat.ofDigitChars_eq_ofDigitChars_zero, List.length_cons, Nat.pow_succ]
      have : 10 ^ cs.length * (10 * 0 + digitValue c) ≤ 10 ^ cs.length * 9 :=
        Nat.mul_le_mul_left _ (by omega)
      unfold digitValue at this
      omega

private theorem le_ofDigitChars (cs : List Char) (n : Nat) : n ≤ Nat.ofDigitChars 10 cs n := by
  rw [Nat.ofDigitChars_eq_ofDigitChars_zero]
  exact Nat.le_trans (Nat.le_mul_of_pos_left n (Nat.pow_pos (by decide))) (Nat.le_add_right _ _)

theorem gather_eq_of_le {cs : List Char} {n : Nat} (h : Nat.ofDigitChars 10 cs n ≤ maxWord) :
    gather n cs = (Nat.ofDigitChars 10 cs n, []) := by
  induction cs generalizing n with
  | nil => simp [gather]
  | cons c cs ih =>
      rw [Nat.ofDigitChars_cons] at h ⊢
      have hlonger : 10 * n + digitValue c ≤ maxWord := Nat.le_trans (le_ofDigitChars cs _) h
      unfold gather
      rw [if_pos hlonger]
      exact ih h

-- The word and the digits that are left over stay below the run of digits.
theorem gather_spec (cs : List Char) {n : Nat} (h : n ≤ maxWord) :
    (gather n cs).1 ≤ maxWord ∧
      (gather n cs).1 * 10 ^ (gather n cs).2.length ≤ Nat.ofDigitChars 10 cs n ∧
      (gather n cs).2.length ≤ cs.length := by
  induction cs generalizing n with
  | nil => simpa [gather] using h
  | cons c cs ih =>
      unfold gather
      dsimp only
      split
      · next hlonger =>
        obtain ⟨hword, hvalue, hlength⟩ := ih hlonger
        rw [Nat.ofDigitChars_cons]
        exact ⟨hword, hvalue, Nat.le_trans hlength (Nat.le_succ _)⟩
      · refine ⟨h, ?_, Nat.le_refl _⟩
        rw [Nat.ofDigitChars_eq_ofDigitChars_zero, Nat.mul_comm]
        exact Nat.le_add_right _ _

end Gather

section Legible

def Numeral.Legible (m : Numeral) : Prop :=
  ∀ negative, (number? negative m.whole m.fraction m.exponent).isSome

def Numeral.scale (m : Numeral) : Double :=
  let (n, extra) := gather 0 m.whole
  let digits := m.fraction.getD []
  let (n, below) := gather n digits
  scaled n (m.exponent.getD 0 + extra.length - (digits.length - below.length : Nat))

private theorem legible_of_scale {m : Numeral} (hparts : ¬(m.fraction = none ∧ m.exponent = none))
    (h : m.scale.isFinite) : m.Legible := by
  intro negative
  have hfloat : ¬((gather 0 m.whole).2 = [] ∧ m.fraction = none ∧ m.exponent = none ∧
      ¬(negative = true ∧ (gather 0 m.whole).1 = 0)) := fun h => hparts ⟨h.2.1, h.2.2.1⟩
  unfold number?
  dsimp only
  rw [if_neg hfloat]
  unfold Numeral.scale at h
  dsimp only at h
  generalize scaled _ _ = x at h ⊢
  cases x with
  | finite x => cases negative <;> rfl
  | nan => cases h
  | infinite => cases h

theorem scaled_nonpos_isFinite {n : Nat} (hn : n ≤ maxWord) {e : Int} (he : e ≤ 0) :
    (scaled n e).isFinite := by
  cases e with
  | negSucc e => exact scaled_negSucc_isFinite hn e
  | ofNat e =>
      have hzero : e = 0 := by
        rw [Int.ofNat_eq_natCast] at he
        omega
      subst hzero
      refine scaled_ofNat_isFinite hn ?_
      have hmax : maxWord * one ≤ headroom := by decide +kernel
      rw [Nat.pow_zero, Nat.mul_one]
      exact Nat.le_trans (Nat.mul_le_mul_right _ hn) hmax

private theorem legible_of_scaled {m : Numeral} {n : Nat} (hwhole : gather 0 m.whole = (n, []))
    (hparts : ¬(m.fraction = none ∧ m.exponent = none))
    (hscaled : (scaled (gather n (m.fraction.getD [])).1
      (m.exponent.getD 0 - ((m.fraction.getD []).length -
        (gather n (m.fraction.getD [])).2.length : Nat))).isFinite) : m.Legible := by
  apply legible_of_scale hparts
  unfold Numeral.scale
  rw [hwhole]
  dsimp only
  rw [List.length_nil, Int.natCast_zero, Int.add_zero]
  exact hscaled

-- A numeral with a point and without an exponent is only scaled down.
theorem legible_of_point {whole fraction : List Char} (hdigits : Digits whole)
    (hlength : whole.length ≤ 16) : (Numeral.mk whole (some fraction) none).Legible := by
  have hlt := ofDigitChars_lt _ hdigits
  have hle : Nat.ofDigitChars 10 whole 0 ≤ maxWord := by
    have h1 : 10 ^ whole.length ≤ 10 ^ 16 := Nat.pow_le_pow_right (by decide) hlength
    have h2 : 10 ^ 16 ≤ maxWord := by decide
    omega
  refine legible_of_scaled (gather_eq_of_le hle) (by simp) ?_
  exact scaled_nonpos_isFinite (gather_spec _ hle).1 (by simp)

-- The exponent of a leading digit, less the places that are used, is that of the last of them.
theorem scaled_scientific_isFinite {d : Decimal} {bound n : Nat} {below ds : List Char}
    (hd : d.AtMost bound) (hbound : bound ≤ headroom) (hn : n ≤ maxWord)
    (hvalue : n * 10 ^ below.length ≤ d.digits) (hlength : below.length ≤ ds.length) :
    (scaled n (d.exponent + ds.length - (ds.length - below.length : Nat))).isFinite := by
  have hexp : d.exponent + ds.length - (ds.length - below.length : Nat) =
      d.exponent + below.length := by omega
  rw [hexp]
  cases hk : d.exponent + below.length with
  | negSucc k => exact scaled_negSucc_isFinite hn k
  | ofNat k =>
      refine scaled_ofNat_isFinite hn (Nat.le_trans ?_ hbound)
      have hsum : k + (-d.exponent).toNat = below.length + d.exponent.toNat := by
        rw [Int.ofNat_eq_natCast] at hk
        omega
      apply Nat.le_of_mul_le_mul_right (c := 10 ^ (-d.exponent).toNat) _ (Nat.pow_pos (by decide))
      calc n * 10 ^ k * one * 10 ^ (-d.exponent).toNat
          = n * 10 ^ (k + (-d.exponent).toNat) * one := by rw [Nat.pow_add]; ring
        _ = n * 10 ^ below.length * (10 ^ d.exponent.toNat * one) := by
          rw [hsum, Nat.pow_add]; ring
        _ ≤ d.digits * (10 ^ d.exponent.toNat * one) := Nat.mul_le_mul_right _ hvalue
        _ = d.digits * 10 ^ d.exponent.toNat * one := (Nat.mul_assoc _ _ _).symm
        _ ≤ bound * 10 ^ (-d.exponent).toNat := hd

def shortestNumeral (units : Nat) : Numeral :=
  let d := Decimal.shortest units
  let ds := Nat.toDigits 10 d.digits
  Numeral.ofLayout ds (d.exponent + ds.length - 1)

theorem exists_toDigits_eq_cons {n : Nat} (h : n ≠ 0) :
    ∃ c cs, Nat.toDigits 10 n = c :: cs ∧ c ≠ '0' ∧ Digits (c :: cs) := by
  obtain ⟨c, cs, hcs⟩ := List.exists_cons_of_ne_nil (Nat.toDigits_ne_nil (n := n) (b := 10))
  have hc := head?_toDigits h c
  rw [hcs] at hc
  exact ⟨c, cs, hcs, hc rfl, hcs ▸ digits_toDigits n⟩

theorem legible_of_atMost {units bound : Nat} (hdigits : (Decimal.shortest units).digits ≠ 0)
    (hmost : (Decimal.shortest units).AtMost bound) (hbound : bound ≤ headroom) :
    (shortestNumeral units).Legible := by
  obtain ⟨c, cs, hcs, -, hall⟩ := exists_toDigits_eq_cons hdigits
  have hvalue : Nat.ofDigitChars 10 (c :: cs) 0 = (Decimal.shortest units).digits := by
    rw [← hcs]
    exact Nat.ofDigitChars_ten_toDigits
  unfold shortestNumeral
  dsimp only
  rw [hcs]
  unfold Numeral.ofLayout
  split
  · next hrange =>
    refine legible_of_point (digits_append (digits_take hall _) (digits_replicate _)) ?_
    simp only [List.length_append, List.length_take, List.length_replicate]
    omega
  · split
    · exact legible_of_point (digits_replicate 1) (by decide)
    · have hc : Nat.ofDigitChars 10 [c] 0 ≤ maxWord := by
        have h1 := ofDigitChars_lt [c] fun x hx => hall x (by simp_all)
        have h2 : 10 ≤ maxWord := by decide
        simp only [List.length_singleton] at h1
        omega
      have hgetD : (if cs = [] then none else some cs).getD [] = cs := by
        split
        · next h => exact h.symm
        · rfl
      have hexp : (Decimal.shortest units).exponent + (c :: cs).length - 1 =
          (Decimal.shortest units).exponent + cs.length := by
        rw [List.length_cons]
        omega
      obtain ⟨hword, hle, hlength⟩ := gather_spec cs hc
      refine legible_of_scaled (gather_eq_of_le hc) (by simp) ?_
      simp only [List.drop_succ_cons, List.drop_zero, hgetD, Option.getD_some, hexp]
      refine scaled_scientific_isFinite hmost hbound hword ?_ hlength
      rw [← hvalue]
      exact Nat.le_trans hle (Nat.le_of_eq (Nat.ofDigitChars_append (l := [c]) 0).symm)

-- So close to the largest magnitude the bound of the product says nothing.
theorem scale_top :
    ∀ j : Fin 6, (shortestNumeral ((2 ^ 53 - 1 - j) * 2 ^ Double.widest)).scale.isFinite = true := by
  decide +kernel

theorem eq_top_of_isShort {units k : Nat} (hshort : Double.IsShort units)
    (hlow : (2 ^ 53 - 6) * 2 ^ k ≤ units) (hhigh : units ≤ (2 ^ 53 - 1) * 2 ^ k) :
    ∃ j : Fin 6, units = (2 ^ 53 - 1 - j) * 2 ^ k := by
  have hlog : k + 53 ≤ Double.bitLength units := by
    by_contra hlt
    have h1 : units < 2 ^ (52 + k) := Double.bitLength_le_iff.1 (by omega)
    have h2 : 2 ^ 52 * 2 ^ k ≤ (2 ^ 53 - 6) * 2 ^ k := Nat.mul_le_mul_right _ (by decide)
    rw [← Nat.pow_add] at h2
    exact absurd (Nat.le_trans h2 hlow) (Nat.not_le.2 h1)
  have hdvd : 2 ^ k ∣ units :=
    Nat.dvd_trans (Nat.pow_dvd_pow 2 (by omega)) (Nat.dvd_of_mod_eq_zero hshort)
  obtain ⟨q, rfl⟩ := hdvd
  have hpow : 0 < 2 ^ k := Nat.two_pow_pos _
  rw [Nat.mul_comm (2 ^ k) q] at hlow hhigh
  have hq1 : 2 ^ 53 - 6 ≤ q := Nat.le_of_mul_le_mul_right hlow hpow
  have hq2 : q ≤ 2 ^ 53 - 1 := Nat.le_of_mul_le_mul_right hhigh hpow
  refine ⟨⟨2 ^ 53 - 1 - q, by omega⟩, ?_⟩
  dsimp only
  rw [Nat.mul_comm]
  congr 1
  omega

theorem legible_shortest {units : Nat} (hpos : units ≠ 0) (hshort : Double.IsShort units)
    (hmax : units ≤ Double.maxUnits) : (shortestNumeral units).Legible := by
  have htop := scale_top
  have hconst : 2 * ((2 ^ 53 - 6) * 2 ^ Double.widest) * 2 ^ 52 ≤ headroom * (2 ^ 53 - 1) := by
    decide +kernel
  unfold Double.maxUnits at hmax
  generalize Double.widest = k at htop hconst hmax
  by_cases hlow : (2 ^ 53 - 6) * 2 ^ k ≤ units
  · obtain ⟨j, rfl⟩ := eq_top_of_isShort hshort hlow hmax
    exact legible_of_scale (ofLayout_parts _ _) (htop j)
  · have hbound : (2 * units + 1) * 2 ^ 52 ≤ headroom * (2 ^ 53 - 1) :=
      Nat.le_trans (Nat.mul_le_mul_right _ (by omega)) hconst
    obtain ⟨hdigits, hmost⟩ := Decimal.shortest_spec hpos hbound
    exact legible_of_atMost hdigits hmost (Nat.le_refl headroom)

theorem renderDouble_eq (x : Double.Finite) : ∃ m : Numeral,
    renderDouble x = signed x.negative m.text ∧ m.Proper ∧ m.Legible := by
  by_cases hzero : x.units = 0
  · refine ⟨⟨['0'], some ['0'], none⟩, ?_, ⟨digits_replicate 1, rfl, ?_⟩, ?_⟩
    · unfold renderDouble
      rw [if_pos hzero]
      rfl
    · intro ds hds
      cases hds
      exact ⟨by simp, digits_replicate 1⟩
    · exact legible_of_point (digits_replicate 1) (by decide)
  · have hdigits := Decimal.shortest_digits_ne_zero hzero
    obtain ⟨c, cs, hcs, hc, hall⟩ := exists_toDigits_eq_cons hdigits
    refine ⟨shortestNumeral x.units, ?_, ?_, legible_shortest hzero x.short x.bounded⟩
    · unfold renderDouble
      rw [if_neg hzero, layout_eq_text]
      rfl
    · unfold shortestNumeral
      dsimp only
      rw [hcs]
      exact proper_ofLayout hall hc _

end Legible

section Whole

theorem proper_toDigits (n : Nat) : (Numeral.mk (Nat.toDigits 10 n) none none).Proper := by
  refine ⟨digits_toDigits n, ?_, fun _ h => nomatch h⟩
  by_cases hzero : n = 0
  · subst hzero
    rfl
  · obtain ⟨c, cs, hcs, hc, -⟩ := exists_toDigits_eq_cons hzero
    dsimp only
    rw [hcs]
    exact isWholePart_cons hc cs

theorem readNumber_whole (negative : Bool) {n : Nat} (hn : n ≤ maxWord)
    (hzero : ¬(negative = true ∧ n = 0)) {rest : List Char} (h : Closes rest) :
    readNumber (signed negative (Nat.toDigits 10 n ++ rest)) =
      (Number.ofInt? (if negative then -(n : Int) else n)).map (·, rest) := by
  have hvalue : Nat.ofDigitChars 10 (Nat.toDigits 10 n) 0 = n := Nat.ofDigitChars_ten_toDigits
  have hgather : gather 0 (Nat.toDigits 10 n) = (n, []) := by
    rw [gather_eq_of_le (by rwa [hvalue]), hvalue]
  have htext : (Numeral.mk (Nat.toDigits 10 n) none none).text = Nat.toDigits 10 n :=
    List.append_nil _
  have hread := readNumber_text (proper_toDigits n) negative h
  rw [htext] at hread
  rw [hread]
  unfold number?
  rw [hgather]
  dsimp only
  rw [if_pos ⟨rfl, rfl, rfl, hzero⟩]

theorem readNumber_renderInt {n : Int} (low : -2 ^ 63 ≤ n) (high : n < 2 ^ 64)
    (rest : List Char) (h : Closes rest) :
    readNumber (renderInt n ++ rest) = some (.int n low high, rest) := by
  have hofInt : Number.ofInt? n = some (.int n low high) := dif_pos ⟨low, high⟩
  cases n with
  | ofNat n =>
      have hword : n ≤ maxWord := by
        rw [Int.ofNat_eq_natCast] at high
        unfold maxWord
        omega
      have hread := readNumber_whole false hword (by simp) h
      simp only [Bool.false_eq_true, if_false] at hread
      rw [← Int.ofNat_eq_natCast, hofInt] at hread
      exact hread
  | negSucc n =>
      have hword : n + 1 ≤ maxWord := by
        unfold maxWord
        omega
      have hread := readNumber_whole true hword (by simp) h
      have hneg : -((n + 1 : Nat) : Int) = Int.negSucc n := rfl
      simp only [if_true] at hread
      rw [hneg, hofInt] at hread
      exact hread

end Whole

end SceneLink.Json

namespace SceneLink.Number

open Json

-- The number that its text denotes: itself, unless it is a float of so many digits that reading
-- them rounds more than once.
def reread (n : Number) : Number := ((readNumber (renderNumber n)).map Prod.fst).getD n

theorem exists_readNumber (n : Number) : ∃ m : Number, ∀ rest, Closes rest →
    readNumber (renderNumber n ++ rest) = some (m, rest) := by
  cases n with
  | int n low high => exact ⟨.int n low high, fun rest h => readNumber_renderInt low high rest h⟩
  | float x =>
      obtain ⟨m, htext, hproper, hlegible⟩ := renderDouble_eq x
      obtain ⟨y, hy⟩ := Option.isSome_iff_exists.1 (hlegible x.negative)
      refine ⟨y, fun rest h => ?_⟩
      have hread := readNumber_text hproper x.negative h
      rw [hy, signed_append, ← htext] at hread
      exact hread

theorem readNumber_renderNumber (n : Number) {rest : List Char} (h : Closes rest) :
    readNumber (renderNumber n ++ rest) = some (n.reread, rest) := by
  obtain ⟨m, hm⟩ := exists_readNumber n
  have hend : readNumber (renderNumber n) = some (m, []) := by
    simpa using hm [] fun _ h => nomatch h
  rw [hm rest h, reread, hend]
  rfl

theorem reread_int {n : Int} (low : -2 ^ 63 ≤ n) (high : n < 2 ^ 64) :
    (int n low high).reread = int n low high := by
  have hread := readNumber_renderInt low high [] fun _ h => nomatch h
  rw [List.append_nil] at hread
  rw [reread, renderNumber, hread]
  rfl

end SceneLink.Number
