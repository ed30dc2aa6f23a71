import SceneLink.Json.Basic
import SceneLink.Double.Decimal

namespace SceneLink.Json

def hexDigit (n : Nat) : Char := if n < 10 then Char.ofNat (48 + n) else Char.ofNat (87 + n)

-- Quotes, backslashes and control characters are escaped; every other character stands for
-- itself.
def renderChar (c : Char) : List Char :=
  match c with
  | '"' => ['\\', '"']
  | '\\' => ['\\', '\\']
  | '\n' => ['\\', 'n']
  | '\r' => ['\\', 'r']
  | '\t' => ['\\', 't']
  | c =>
    if c.toNat = 8 then ['\\', 'b']
    else if c.toNat = 12 then ['\\', 'f']
    else if c.toNat < 32 then
      ['\\', 'u', '0', '0', hexDigit (c.toNat / 16), hexDigit (c.toNat % 16)]
    else [c]

def renderString (s : String) : List Char := '"' :: s.toList.flatMap renderChar ++ ['"']

def renderInt : Int → List Char
  | .ofNat n => Nat.toDigits 10 n
  | .negSucc n => '-' :: Nat.toDigits 10 (n + 1)

-- The layout of the digits `ds`, whose first one has the decimal exponent `e`: positional for
-- exponents from -5 to 15, and scientific with a signed exponent for all others.
def layout (ds : List Char) (e : Int) : List Char :=
  if 0 ≤ e ∧ e < 16 then
    let whole := ds.take (e.toNat + 1)
    let fraction := ds.drop (e.toNat + 1)
    whole ++ List.replicate (e.toNat + 1 - ds.length) '0' ++ '.' ::
      (if fraction = [] then ['0'] else fraction)
  else if -5 ≤ e ∧ e < 0 then
    '0' :: '.' :: List.replicate ((-e).toNat - 1) '0' ++ ds
  else
    let mantissa := match ds with
      | [] => []
      | [d] => [d]
      | d :: rest => d :: '.' :: rest
    mantissa ++ 'e' :: (if e < 0 then '-' else '+') :: Nat.toDigits 10 e.natAbs

def renderDouble (x : Double.Finite) : List Char :=
  let body :=
    if x.units = 0 then ['0', '.', '0']
    else
      let d := Decimal.shortest x.units
      let ds := Nat.toDigits 10 d.digits
      layout ds (d.exponent + ds.length - 1)
  if x.negative then '-' :: body else body

def renderNumber : Number → List Char
  | .int n _ _ => renderInt n
  | .float x => renderDouble x

mutual

def render : Json → List Char
  | null => ['n', 'u', 'l', 'l']
  | bool true => ['t', 'r', 'u', 'e']
  | bool false => ['f', 'a', 'l', 's', 'e']
  | num n => renderNumber n
  | str s => renderString s
  | arr items => '[' :: renderItems items ++ [']']
  | obj fields => '{' :: renderFields fields ++ ['}']

-- The items of an array with commas between them.
def renderItems : List Json → List Char
  | [] => []
  | [a] => render a
  | a :: as => render a ++ ',' :: renderItems as

def renderFields : List (String × Json) → List Char
  | [] => []
  | [(k, a)] => renderString k ++ ':' :: render a
  | (k, a) :: as => renderString k ++ ':' :: render a ++ ',' :: renderFields as

end

def text (json : Json) : String := String.ofList json.render

end SceneLink.Json
