import SceneLink.Json.Basic
import SceneLink.Text.Numeral

namespace SceneLink.Json

-- The largest number that a word holds.
def maxWord : Nat := 2 ^ 64 - 1

-- Appends digits to a word up to the first that does not fit; gives the word, and the digits that
-- are left over.
def gather (n : Nat) : List Char → Nat × List Char
  | [] => (n, [])
  | c :: cs =>
    let longer := 10 * n + Text.digitValue c
    if longer ≤ maxWord then gather longer cs else (n, c :: cs)

-- The largest power of ten that is a finite double.
def maxPower : Nat := 308

def powerOfTen (k : Nat) : Double := (Decimal.mk 1 k).toDouble false

-- A word times a power of ten. A power below 10^-308 is applied in two steps, after which every
-- word is zero if the power is below 10^-616.
def scaled (n : Nat) : Int → Double
  | .ofNat e => if n = 0 then Double.zero else Double.ofInt n * powerOfTen e
  | .negSucc e =>
    let places := e + 1
    if places ≤ maxPower then Double.ofInt n / powerOfTen places
    else
      Double.ofInt n / powerOfTen maxPower / powerOfTen (min (places - maxPower) maxPower)

-- A whole part has no leading zero.
def isWholePart : List Char → Bool
  | [] => false
  | ['0'] => true
  | c :: _ => c != '0'

-- The fraction after a point and the exponent, or `none` for each that is absent; the outer `none`
-- stands for a malformed one.
def readFraction : List Char → Option (Option (List Char) × List Char)
  | '.' :: cs =>
    let (digits, rest) := Text.spanDigits cs
    if digits = [] then none else some (some digits, rest)
  | cs => some (none, cs)

def readExponent : List Char → Option (Option Int × List Char)
  | [] => some (none, [])
  | c :: cs =>
    if c = 'e' ∨ c = 'E' then
      let (negative, cs) := Text.splitSign cs
      let (digits, rest) := Text.spanDigits cs
      if digits = [] then none
      else
        let n := (Text.ofDigits digits : Int)
        some (some (if negative then -n else n), rest)
    else some (none, c :: cs)

-- The digits of a numeral are gathered in a word of 64 bits for as long as they fit. If all of them
-- fit, a numeral without point and exponent is a whole number. Any other is scaled: the word is
-- multiplied or divided by a power of ten, in doubles, so the result may be a neighbour of the
-- nearest double. A digit of the whole part that is left over counts as a factor of ten, and a
-- digit of the fraction that is left over does not count. The negative zero is a float.
def number? (negative : Bool) (whole : List Char) (fraction : Option (List Char))
    (exponent : Option Int) : Option Number :=
  let (n, extra) := gather 0 whole
  if extra = [] ∧ fraction = none ∧ exponent = none ∧ ¬(negative ∧ n = 0) then
    Number.ofInt? (if negative then -(n : Int) else n)
  else
    let digits := fraction.getD []
    let (n, below) := gather n digits
    let places := digits.length - below.length
    let x := scaled n (exponent.getD 0 + extra.length - places)
    match if negative then -x else x with
    | .finite x => some (.float x)
    | _ => none

def readNumber (cs : List Char) : Option (Number × List Char) :=
  let (negative, cs) := match cs with
    | '-' :: cs => (true, cs)
    | cs => (false, cs)
  let (whole, cs) := Text.spanDigits cs
  if isWholePart whole then do
    let (fraction, cs) ← readFraction cs
    let (exponent, cs) ← readExponent cs
    let n ← number? negative whole fraction exponent
    return (n, cs)
  else none

end SceneLink.Json
