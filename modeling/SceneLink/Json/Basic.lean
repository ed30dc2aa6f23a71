import SceneLink.Dict
import SceneLink.Double.Arithmetic

namespace SceneLink

inductive Number where
  | int (n : Int) (low : -2 ^ 63 ≤ n) (high : n < 2 ^ 64)
  | float (x : Double.Finite)
deriving DecidableEq

-- The fields of an object stand in increasing order of their names.
inductive Json where
  | null
  | bool (b : Bool)
  | num (n : Number)
  | str (s : String)
  | arr (items : List Json)
  | obj (fields : List (String × Json))

instance : Inhabited Json := ⟨Json.null⟩

namespace Number

-- A whole number of 64 bits stays one; any other becomes the nearest double, if that is finite.
def ofInt? (n : Int) : Option Number :=
  if h : -2 ^ 63 ≤ n ∧ n < 2 ^ 64 then some (int n h.1 h.2)
  else match Double.ofInt n with
    | .finite x => some (float x)
    | _ => none

def toDouble : Number → Double
  | int n _ _ => Double.ofInt n
  | float x => .finite x

-- Numbers are equal if they are of one kind and of one value; the two zeros are equal.
def same : Number → Number → Bool
  | int m _ _, int n _ _ => m = n
  | float x, float y => x.signed = y.signed
  | _, _ => false

end Number

namespace Json

-- A whole number below 2^53 in magnitude, which every double in that range represents.
def ofSmall (n : Int) (h : n.natAbs < 2 ^ 53) : Json :=
  num (.int n (by omega) (by omega))

def zero : Json := ofSmall 0 (by decide)

def ofInt (n : Int) : Json := ((Number.ofInt? n).map num).getD null

def ofNat (n : Nat) : Json := ofInt n

-- The number nearest to a double: a whole number below 2^53 if it is one, and a float otherwise;
-- infinities become the largest finite number, and `nan` becomes `null`.
def ofDouble (x : Double) : Json :=
  match x.saturate with
  | .finite x =>
    if h : x.isWhole ∧ x.truncated.natAbs < 2 ^ 53 then ofSmall x.truncated h.2
    else num (.float x)
  | _ => null

-- The number that is always written as a float, if the double is finite.
def ofFloat (x : Double) : Json :=
  match x with
  | .finite x => num (.float x)
  | _ => null

def double? : Json → Option Double
  | num n => some n.toDouble
  | _ => none

def bool? : Json → Option Bool
  | bool b => some b
  | _ => none

def str? : Json → Option String
  | str s => some s
  | _ => none

def items? : Json → Option (List Json)
  | arr items => some items
  | _ => none

def fields? : Json → Option (Dict String Json)
  | obj fields => some fields
  | _ => none

-- A whole number that is not negative.
def nat? : Json → Option Nat
  | num (.int n _ _) => if 0 ≤ n then some n.toNat else none
  | _ => none

def isNull : Json → Bool
  | null => true
  | _ => false

def field? (json : Json) (name : String) : Option Json := json.fields?.bind (·.get? name)

def ofFields (pairs : List (String × Json)) : Json := obj (Dict.ofList pairs)

def record (d : Dict String Json) : Json := obj d

def ofStrings (texts : List String) : Json := arr (texts.map str)

mutual

def same : Json → Json → Bool
  | null, null => true
  | bool a, bool b => a = b
  | num a, num b => a.same b
  | str a, str b => a = b
  | arr a, arr b => sameItems a b
  | obj a, obj b => sameFields a b
  | _, _ => false

def sameItems : List Json → List Json → Bool
  | [], [] => true
  | a :: as, b :: bs => same a b && sameItems as bs
  | _, _ => false

def sameFields : List (String × Json) → List (String × Json) → Bool
  | [], [] => true
  | (k, a) :: as, (l, b) :: bs => k = l && same a b && sameFields as bs
  | _, _ => false

end

mutual

def Sorted : Json → Prop
  | arr items => SortedItems items
  | obj fields => Dict.Sorted fields ∧ SortedFields fields
  | _ => True

def SortedItems : List Json → Prop
  | [] => True
  | a :: as => Sorted a ∧ SortedItems as

def SortedFields : List (String × Json) → Prop
  | [] => True
  | (_, a) :: as => Sorted a ∧ SortedFields as

end

mutual

def depth : Json → Nat
  | arr items => depthItems items + 1
  | obj fields => depthFields fields + 1
  | _ => 0

def depthItems : List Json → Nat
  | [] => 0
  | a :: as => max (depth a) (depthItems as)

def depthFields : List (String × Json) → Nat
  | [] => 0
  | (_, a) :: as => max (depth a) (depthFields as)

end

end Json

end SceneLink
