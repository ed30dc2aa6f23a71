/-!
Binary floating-point numbers of 64 bits, as exact data. A finite number is a sign and a
magnitude, and the magnitude is a whole number of units of 2^-1074, the smallest positive
number of the format. Every quotient of naturals is rounded by one function, `nearest`, to
the nearest magnitude that has at most 53 significant bits, a tie to the even neighbour.
-/

namespace SceneLink

-- A power with a natural exponent is that of the numbers themselves, also in a module where
-- algebra has another for them.
@[default_instance 20000]
instance (priority := high) powNat {α : Type} [NatPow α] : Pow α Nat := instPowNat

namespace Double

-- Units in the number one.
def one : Nat := 2 ^ 1074

-- The widest gap between neighbouring finite numbers is two to this power, in units.
def widest : Nat := 2045

-- The largest finite magnitude, in units.
def maxUnits : Nat := (2 ^ 53 - 1) * 2 ^ widest

def bitLength (n : Nat) : Nat := if n = 0 then 0 else n.log2 + 1

-- All bits below the leading 53 are zero.
def IsShort (units : Nat) : Prop := units % 2 ^ (bitLength units - 53) = 0

instance (units : Nat) : Decidable (IsShort units) :=
  inferInstanceAs (Decidable (_ = _))

-- Rounds `num / den` to the nearest magnitude with at most 53 significant bits.
def nearest (num den : Nat) : Nat :=
  let dropped := bitLength (num / den) - 53
  let step := den * 2 ^ dropped
  let kept := num / step
  let left := num % step
  let up := step < 2 * left ∨ (2 * left = step ∧ kept % 2 = 1)
  (if up then kept + 1 else kept) * 2 ^ dropped

theorem bitLength_le_iff {n k : Nat} : bitLength n ≤ k ↔ n < 2 ^ k := by
  unfold bitLength
  split
  · next h =>
    subst h
    exact iff_of_true (Nat.zero_le k) (Nat.two_pow_pos k)
  · next h => rw [Nat.add_one_le_iff, Nat.log2_lt h]

theorem isShort_mul_two_pow {m k : Nat} (h : m ≤ 2 ^ 53) : IsShort (m * 2 ^ k) := by
  unfold IsShort
  by_cases hm : m = 2 ^ 53
  · subst hm
    have hb : bitLength (2 ^ 53 * 2 ^ k) ≤ 54 + k := by
      rw [bitLength_le_iff, ← Nat.pow_add]
      exact Nat.pow_lt_pow_right (by decide) (by omega)
    have hd : 2 ^ (bitLength (2 ^ 53 * 2 ^ k) - 53) ∣ 2 ^ 53 * 2 ^ k := by
      rw [← Nat.pow_add]
      exact Nat.pow_dvd_pow 2 (by rw [← Nat.pow_add] at hb; omega)
    exact Nat.mod_eq_zero_of_dvd hd
  · have hb : bitLength (m * 2 ^ k) ≤ 53 + k := by
      rw [bitLength_le_iff, Nat.pow_add]
      exact Nat.mul_lt_mul_of_pos_right (by omega) (Nat.two_pow_pos k)
    have hd : 2 ^ (bitLength (m * 2 ^ k) - 53) ∣ m * 2 ^ k :=
      Nat.dvd_trans (Nat.pow_dvd_pow 2 (by omega)) (Nat.dvd_mul_left _ _)
    exact Nat.mod_eq_zero_of_dvd hd

theorem isShort_maxUnits : IsShort maxUnits :=
  isShort_mul_two_pow (Nat.sub_le _ _)

theorem isShort_nearest (num den : Nat) : IsShort (nearest num den) := by
  unfold nearest
  apply isShort_mul_two_pow
  have hq : num / (den * 2 ^ (bitLength (num / den) - 53)) < 2 ^ 53 := by
    rw [← Nat.div_div_eq_div_mul, Nat.div_lt_iff_lt_mul (Nat.two_pow_pos _), ← Nat.pow_add]
    exact bitLength_le_iff.1 (by omega)
  split <;> omega

structure Finite where
  negative : Bool
  units : Nat
  short : IsShort units
  bounded : units ≤ maxUnits
deriving DecidableEq

end Double

inductive Double where
  | nan
  | infinite (negative : Bool)
  | finite (x : Double.Finite)
deriving DecidableEq

namespace Double

-- The number nearest to `num / den` units; beyond the largest magnitude it is infinite.
def ofUnits (negative : Bool) (num den : Nat) : Double :=
  if h : nearest num den ≤ maxUnits then
    finite ⟨negative, nearest num den, isShort_nearest num den, h⟩
  else infinite negative

def Finite.zero (negative : Bool) : Finite := ⟨negative, 0, Nat.zero_mod _, Nat.zero_le _⟩

def Finite.max (negative : Bool) : Finite :=
  ⟨negative, maxUnits, isShort_maxUnits, Nat.le_refl _⟩

instance : Inhabited Finite := ⟨Finite.zero false⟩

def zero : Double := finite (Finite.zero false)

def ofInt (n : Int) : Double := ofUnits (n < 0) (n.natAbs * one) 1

-- The signed number of units; it forgets the sign of zero.
def Finite.signed (x : Finite) : Int := if x.negative then -(x.units : Int) else x.units

def Finite.isWhole (x : Finite) : Bool := x.units % one = 0

-- The integer part, rounded towards zero.
def Finite.truncated (x : Finite) : Int :=
  if x.negative then -((x.units / one : Nat) : Int) else (x.units / one : Nat)

end Double

end SceneLink
