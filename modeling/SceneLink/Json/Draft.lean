import SceneLink.Json.Reader
import SceneLink.Json.Record

/-!
Reading a record straight from its text. Here a field of the record may be given only once,
and within a field no name may repeat either. An unknown field is passed over, so that its
value has to keep to the grammar alone: it may nest to any depth, hold numbers of any size, and
escape half of a surrogate pair.
-/

namespace SceneLink.Json

def passString : List Char → Option (List Char)
  | [] => none
  | c :: cs =>
    if c = '"' then some cs
    else if c = '\\' then
      match cs with
      | 'u' :: a :: b :: c :: d :: cs => if (hex4? a b c d).isSome then passString cs else none
      | e :: cs => if (shortEscape? e).isSome then passString cs else none
      | [] => none
    else if c.toNat < 32 then none
    else passString cs

def passNumber (cs : List Char) : Option (List Char) :=
  let cs := match cs with
    | '-' :: cs => cs
    | cs => cs
  let (whole, cs) := Text.spanDigits cs
  if isWholePart whole then do
    let (_, cs) ← readFraction cs
    let (_, cs) ← readExponent cs
    return cs
  else none

mutual

def passValue : Nat → List Char → Option (List Char)
  | 0, _ => none
  | fuel + 1, cs =>
    match skip cs with
    | 'n' :: 'u' :: 'l' :: 'l' :: cs => some cs
    | 't' :: 'r' :: 'u' :: 'e' :: cs => some cs
    | 'f' :: 'a' :: 'l' :: 's' :: 'e' :: cs => some cs
    | '"' :: cs => passString cs
    | '[' :: cs => match skip cs with
      | ']' :: cs => some cs
      | cs => passItems fuel cs
    | '{' :: cs => match skip cs with
      | '}' :: cs => some cs
      | cs => passFields fuel cs
    | cs => passNumber cs

def passItems : Nat → List Char → Option (List Char)
  | 0, _ => none
  | fuel + 1, cs =>
    match passValue fuel cs with
    | none => none
    | some cs => match skip cs with
      | ',' :: cs => passItems fuel cs
      | ']' :: cs => some cs
      | _ => none

def passFields : Nat → List Char → Option (List Char)
  | 0, _ => none
  | fuel + 1, cs =>
    match skip cs with
    | '"' :: cs => match (passString cs).map skip with
      | some (':' :: cs) => match (passValue fuel cs).map skip with
        | some (',' :: cs) => passFields fuel cs
        | some ('}' :: cs) => some cs
        | _ => none
      | _ => none
    | _ => none

end

-- A value in which no name repeats at the top.
def readOnce (fuel : Nat) (cs : List Char) : Option (Json × List Char) :=
  match skip cs with
  | '{' :: cs => match skip cs with
    | '}' :: cs => some (obj [], cs)
    | cs => match readFields fuel maxDepth cs with
      | some (pairs, cs) =>
        if (pairs.map Prod.fst).Nodup then some (ofFields pairs, cs) else none
      | none => none
  | cs => readValue fuel maxDepth cs

def readSlots : Nat → List Char → Option (List Json × List Char)
  | 0, _ => none
  | fuel + 1, cs =>
    match readOnce fuel cs with
    | none => none
    | some (item, cs) => match skip cs with
      | ',' :: cs => (readSlots fuel cs).map fun (items, cs) => (item :: items, cs)
      | ']' :: cs => some ([item], cs)
      | _ => none

def readKnown (names : List String) : Nat → Dict String Json → List Char →
    Option (Dict String Json × List Char)
  | 0, _, _ => none
  | fuel + 1, seen, cs =>
    match skip cs with
    | '"' :: cs => match readString cs with
      | none => none
      | some (name, cs) =>
        let name := String.ofList name
        match skip cs with
        | ':' :: cs =>
          let read := if name ∈ names then
              if seen.contains name then none
              else (readOnce fuel cs).map fun (value, cs) => (seen.insert name value, cs)
            else (passValue fuel cs).map fun cs => (seen, cs)
          match read with
          | none => none
          | some (seen, cs) => match skip cs with
            | ',' :: cs => readKnown names fuel seen cs
            | '}' :: cs => some (seen, cs)
            | _ => none
        | _ => none
    | _ => none

-- The value, if nothing but gaps follows it.
def whole? {α : Type} : Option (α × List Char) → Option α
  | some (value, rest) => if skip rest = [] then some value else none
  | none => none

def recordOfText? (names : List String) (text : String) : Option Fields :=
  let cs := text.toList
  match skip cs with
  | '{' :: cs =>
    let fields := match skip cs with
      | '}' :: cs => some ([], cs)
      | cs => readKnown names (fuelFor cs) [] cs
    (whole? fields).map Dict.get?
  | '[' :: cs =>
    let items := match skip cs with
      | ']' :: cs => some ([], cs)
      | cs => readSlots (fuelFor cs) cs
    (whole? items).bind fun items => record? names (.arr items)
  | _ => none

end SceneLink.Json
