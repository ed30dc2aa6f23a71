import SceneLink.Double.Decimal

namespace SceneLink.Text

def isDigit (c : Char) : Bool := '0' ≤ c && c ≤ '9'

def digitValue (c : Char) : Nat := c.toNat - '0'.toNat

-- The number that a run of digits denotes.
def ofDigits (cs : List Char) : Nat := cs.foldl (fun n c => 10 * n + digitValue c) 0

-- The longest run of digits at the start, and what follows it.
def spanDigits (cs : List Char) : List Char × List Char :=
  (cs.takeWhile isDigit, cs.dropWhile isDigit)

def allDigits? (cs : List Char) : Option Nat :=
  if cs ≠ [] ∧ cs.all isDigit then some (ofDigits cs) else none

-- The sign in front, `true` for a minus, and the rest.
def splitSign : List Char → Bool × List Char
  | '-' :: cs => (true, cs)
  | '+' :: cs => (false, cs)
  | cs => (false, cs)

-- The largest position that an index can name.
def maxIndex : Nat := 2 ^ 64 - 1

-- An index: digits, with a plus in front if one likes, up to 2^64 - 1.
def index? (cs : List Char) : Option Nat :=
  let digits := match cs with
    | '+' :: rest => rest
    | _ => cs
  (allDigits? digits).filter (· ≤ maxIndex)

-- A whole number with an optional sign, from -2^63 to 2^63 - 1.
def integer? (cs : List Char) : Option Int :=
  let (negative, digits) := splitSign cs
  (allDigits? digits).bind fun n =>
    if negative then (if n ≤ 2 ^ 63 then some (-(n : Int)) else none)
    else (if n < 2 ^ 63 then some (n : Int) else none)

def lowerAscii (c : Char) : Char :=
  if 'A' ≤ c ∧ c ≤ 'Z' then Char.ofNat (c.toNat + 32) else c

-- An exponent is `e` or `E`, an optional sign and at least one digit; the empty text stands
-- for exponent zero.
def exponent? : List Char → Option Int
  | [] => some 0
  | c :: cs =>
    if c = 'e' ∨ c = 'E' then
      let (negative, digits) := splitSign cs
      (allDigits? digits).map fun n => if negative then -(n : Int) else n
    else none

-- Digits with an optional point and exponent; one side of the point may be empty.
def decimal? (cs : List Char) : Option Decimal :=
  let (whole, cs) := spanDigits cs
  let (fraction, cs) := match cs with
    | '.' :: cs => spanDigits cs
    | cs => ([], cs)
  if whole = [] ∧ fraction = [] then none
  else (exponent? cs).map fun e => ⟨ofDigits (whole ++ fraction), e - fraction.length⟩

-- A floating-point number: a decimal, an infinity or `nan`, with an optional sign.
def double? (cs : List Char) : Option Double :=
  let (negative, rest) := splitSign cs
  let word := String.ofList (rest.map lowerAscii)
  if word = "inf" ∨ word = "infinity" then some (.infinite negative)
  else if word = "nan" then some .nan
  else (decimal? rest).map (Decimal.toDouble negative)

end SceneLink.Text
