import SceneLink.Double.Basic

namespace SceneLink.Double

def isNan : Double → Bool
  | nan => true
  | _ => false

def isFinite : Double → Bool
  | finite _ => true
  | _ => false

def neg : Double → Double
  | nan => nan
  | infinite negative => infinite !negative
  | finite x => finite { x with negative := !x.negative }

-- An exact sum of zero is negative only if both terms are negative zeros.
def Finite.add (x y : Finite) : Double :=
  let sum := x.signed + y.signed
  if sum = 0 then finite (Finite.zero (x.negative && y.negative && x.units = 0))
  else ofUnits (sum < 0) sum.natAbs 1

-- Sums, products and quotients are computed exactly in units and rounded once.
def add : Double → Double → Double
  | nan, _ => nan
  | _, nan => nan
  | infinite a, infinite b => if a = b then infinite a else nan
  | infinite a, finite _ => infinite a
  | finite _, infinite b => infinite b
  | finite x, finite y => x.add y

def sub (x y : Double) : Double := add x (neg y)

def mul : Double → Double → Double
  | nan, _ => nan
  | _, nan => nan
  | infinite a, infinite b => infinite (a != b)
  | infinite a, finite y => if y.units = 0 then nan else infinite (a != y.negative)
  | finite x, infinite b => if x.units = 0 then nan else infinite (x.negative != b)
  | finite x, finite y => ofUnits (x.negative != y.negative) (x.units * y.units) one

def div : Double → Double → Double
  | nan, _ => nan
  | _, nan => nan
  | infinite _, infinite _ => nan
  | infinite a, finite y => infinite (a != y.negative)
  | finite x, infinite b => finite (Finite.zero (x.negative != b))
  | finite x, finite y =>
    if y.units = 0 then
      if x.units = 0 then nan else infinite (x.negative != y.negative)
    else ofUnits (x.negative != y.negative) (x.units * one) y.units

instance : Neg Double := ⟨neg⟩
instance : Add Double := ⟨add⟩
instance : Sub Double := ⟨sub⟩
instance : Mul Double := ⟨mul⟩
instance : Div Double := ⟨div⟩
instance (n : Nat) : OfNat Double n := ⟨ofInt n⟩

def lt : Double → Double → Bool
  | nan, _ => false
  | _, nan => false
  | infinite a, infinite b => a && !b
  | infinite a, finite _ => a
  | finite _, infinite b => !b
  | finite x, finite y => x.signed < y.signed

-- The two zeros are equal here, and `nan` differs from itself.
def same : Double → Double → Bool
  | nan, _ => false
  | _, nan => false
  | infinite a, infinite b => a = b
  | finite x, finite y => x.signed = y.signed
  | _, _ => false

def le (x y : Double) : Bool := lt x y || same x y

-- The larger operand; an operand that is `nan` is ignored.
def max (x y : Double) : Double :=
  if x.isNan then y else if y.isNan then x else if lt x y then y else x

def min (x y : Double) : Double :=
  if x.isNan then y else if y.isNan then x else if lt y x then y else x

-- Moves `x` into the interval from `low` to `high`; `nan` stays.
def clamp (x low high : Double) : Double :=
  if lt x low then low else if lt high x then high else x

def isZero (x : Double) : Bool := same x zero

-- Puts the largest finite magnitude in place of an infinite one.
def saturate (x : Double) : Double :=
  clamp x (finite (Finite.max true)) (finite (Finite.max false))

def isWhole : Double → Bool
  | finite x => x.isWhole
  | _ => false

-- Rounds to a whole number, a half away from zero.
def round : Double → Double
  | finite x => ofUnits x.negative ((x.units + one / 2) / one * one) 1
  | x => x

-- Repeated squaring: `square` is the base raised to the weight of the current bit.
def powLoop : Nat → Double → Nat → Double → Double
  | 0, _, _, result => result
  | fuel + 1, square, n, result =>
    let result := if n % 2 = 1 then result * square else result
    if n / 2 = 0 then result else powLoop fuel (square * square) (n / 2) result

-- The power with a natural exponent, each product rounded on its own.
def pow (x : Double) (n : Nat) : Double := powLoop (n + 1) x n 1

end SceneLink.Double
