import SceneLink.Double.Basic

namespace SceneLink

-- The positive number `digits * 10 ^ exponent`, without its sign.
structure Decimal where
  digits : Nat
  exponent : Int
deriving DecidableEq

namespace Decimal

def digitCount (n : Nat) : Nat := (Nat.toDigits 10 n).length

-- From 10^309 on every number is infinite, and below 10^-324 / 2 every number is zero; the
-- two bounds keep a huge exponent from being expanded.
def toDouble (negative : Bool) (d : Decimal) : Double :=
  let top := d.exponent + digitCount d.digits
  if d.digits = 0 ∨ top < -330 then .finite (Double.Finite.zero negative)
  else if 330 < top then .infinite negative
  else match d.exponent with
    | .ofNat e => Double.ofUnits negative (d.digits * 10 ^ e * Double.one) 1
    | .negSucc e => Double.ofUnits negative (d.digits * Double.one) (10 ^ (e + 1))

-- Drops trailing zeros; the fuel bounds their number.
def stripLoop : Nat → Decimal → Decimal
  | 0, d => d
  | fuel + 1, d =>
    if d.digits ≠ 0 ∧ d.digits % 10 = 0 then stripLoop fuel ⟨d.digits / 10, d.exponent + 1⟩
    else d

def strip (d : Decimal) : Decimal := stripLoop (digitCount d.digits) d

-- The exact value of a magnitude: a unit is 5^1074 / 10^1074.
def exact (units : Nat) : Decimal := ⟨units * 5 ^ 1074, -1074⟩

-- The exponent of the leading digit of `units`.
def leading (units : Nat) : Int :=
  let inverse := Double.one / units
  if Double.one ≤ units then (digitCount (units / Double.one) : Int) - 1
  else if Double.one % units = 0 ∧ inverse = 10 ^ (digitCount inverse - 1) then
    1 - (digitCount inverse : Int)
  else -(digitCount inverse : Int)

def readsBack (units : Nat) (d : Decimal) : Bool :=
  match d.toDouble false with
  | .finite x => x.units = units
  | _ => false

-- The value in steps of 10^exponent: the whole steps below it, and the rest over a
-- denominator.
def steps (units : Nat) (exponent : Int) : Nat × Nat × Nat :=
  let (num, den) := match exponent with
    | .ofNat e => (units, Double.one * 10 ^ e)
    | .negSucc e => (units * 10 ^ (e + 1), Double.one)
  (num / den, num % den, den)

-- The numeral of `count` digits that reads back, if there is one: of the two neighbours on that
-- grid the nearer, and of two equally near the even one.
def onGrid? (units count : Nat) : Option Decimal :=
  let exponent := leading units - (count : Int) + 1
  let (below, rest, den) := steps units exponent
  let low : Decimal := ⟨below, exponent⟩
  let high : Decimal := ⟨below + 1, exponent⟩
  match readsBack units low, readsBack units high with
  | true, true =>
    if den < 2 * rest ∨ (2 * rest = den ∧ below % 2 = 1) then some high else some low
  | true, false => some low
  | false, true => some high
  | false, false => none

-- The shortest numeral that reads back as the positive magnitude `units`.
def shortest (units : Nat) : Decimal :=
  strip (((List.range 17).findSome? fun n => onGrid? units (n + 1)).getD (exact units))

end Decimal

end SceneLink
