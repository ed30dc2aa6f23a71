import SceneLink.Json.Numeral

namespace SceneLink.Json

-- Space, tab, line feed and carriage return stand between tokens.
def isGap (c : Char) : Bool := c = ' ' || c = '\t' || c = '\n' || c = '\r'

def skip (cs : List Char) : List Char := cs.dropWhile isGap

def hexValue? (c : Char) : Option Nat :=
  if '0' ≤ c ∧ c ≤ '9' then some (c.toNat - 48)
  else if 'a' ≤ c ∧ c ≤ 'f' then some (c.toNat - 87)
  else if 'A' ≤ c ∧ c ≤ 'F' then some (c.toNat - 55)
  else none

def hex4? (a b c d : Char) : Option Nat := do
  let a ← hexValue? a
  let b ← hexValue? b
  let c ← hexValue? c
  let d ← hexValue? d
  return ((a * 16 + b) * 16 + c) * 16 + d

-- The escapes of one letter.
def shortEscape? (c : Char) : Option Char :=
  match c with
  | '"' => some '"'
  | '\\' => some '\\'
  | '/' => some '/'
  | 'b' => some (Char.ofNat 8)
  | 'f' => some (Char.ofNat 12)
  | 'n' => some '\n'
  | 'r' => some '\r'
  | 't' => some '\t'
  | _ => none

def isLeadSurrogate (u : Nat) : Bool := 0xD800 ≤ u && u < 0xDC00

def isTrailSurrogate (u : Nat) : Bool := 0xDC00 ≤ u && u < 0xE000

-- The characters of a string up to its closing quote, and what follows the quote.
def readString : List Char → Option (List Char × List Char)
  | [] => none
  | c :: cs =>
    if c = '"' then some ([], cs)
    else if c = '\\' then
      match cs with
      | 'u' :: a :: b :: c :: d :: cs =>
        match hex4? a b c d with
        | none => none
        | some u =>
          if isTrailSurrogate u then none
          else if isLeadSurrogate u then
            match cs with
            | '\\' :: 'u' :: a :: b :: c :: d :: cs =>
              match hex4? a b c d with
              | none => none
              | some v =>
                if isTrailSurrogate v then
                  (readString cs).map fun (s, rest) =>
                    (Char.ofNat (0x10000 + (u - 0xD800) * 0x400 + (v - 0xDC00)) :: s, rest)
                else none
            | _ => none
          else (readString cs).map fun (s, rest) => (Char.ofNat u :: s, rest)
      | e :: cs =>
        match shortEscape? e with
        | none => none
        | some x => (readString cs).map fun (s, rest) => (x :: s, rest)
      | [] => none
    else if c.toNat < 32 then none
    else (readString cs).map fun (s, rest) => (c :: s, rest)

mutual

-- Each function takes what it reads off the front, and gives the value with the rest of the text.
-- `room` is how many more levels may open.
def readValue : Nat → Nat → List Char → Option (Json × List Char)
  | 0, _, _ => none
  | fuel + 1, room, cs =>
    match skip cs with
    | 'n' :: 'u' :: 'l' :: 'l' :: cs => some (null, cs)
    | 't' :: 'r' :: 'u' :: 'e' :: cs => some (bool true, cs)
    | 'f' :: 'a' :: 'l' :: 's' :: 'e' :: cs => some (bool false, cs)
    | '"' :: cs => (readString cs).map fun (s, cs) => (str (String.ofList s), cs)
    | '[' :: cs =>
      if room = 0 then none
      else match skip cs with
        | ']' :: cs => some (arr [], cs)
        | cs => (readItems fuel (room - 1) cs).map fun (items, cs) => (arr items, cs)
    | '{' :: cs =>
      if room = 0 then none
      else match skip cs with
        | '}' :: cs => some (obj [], cs)
        | cs => (readFields fuel (room - 1) cs).map fun (pairs, cs) => (ofFields pairs, cs)
    | cs => (readNumber cs).map fun (n, cs) => (num n, cs)

-- At least one item, and the closing bracket.
def readItems : Nat → Nat → List Char → Option (List Json × List Char)
  | 0, _, _ => none
  | fuel + 1, room, cs =>
    match readValue fuel room cs with
    | none => none
    | some (item, cs) =>
      match skip cs with
      | ',' :: cs => (readItems fuel room cs).map fun (items, cs) => (item :: items, cs)
      | ']' :: cs => some ([item], cs)
      | _ => none

-- At least one field, and the closing brace.
def readFields : Nat → Nat → List Char → Option (List (String × Json) × List Char)
  | 0, _, _ => none
  | fuel + 1, room, cs =>
    match skip cs with
    | '"' :: cs =>
      match readString cs with
      | none => none
      | some (name, cs) =>
        match skip cs with
        | ':' :: cs =>
          match readValue fuel room cs with
          | none => none
          | some (value, cs) =>
            let field := (String.ofList name, value)
            match skip cs with
            | ',' :: cs => (readFields fuel room cs).map fun (rest, cs) => (field :: rest, cs)
            | '}' :: cs => some ([field], cs)
            | _ => none
        | _ => none
    | _ => none

end

-- How deep arrays and objects may nest.
def maxDepth : Nat := 127

-- Each character opens at most two calls.
def fuelFor (cs : List Char) : Nat := 2 * cs.length + 2

def parseChars? (cs : List Char) : Option Json :=
  match readValue (fuelFor cs) maxDepth cs with
  | some (json, rest) => if skip rest = [] then some json else none
  | none => none

def parse? (text : String) : Option Json := parseChars? text.toList

end SceneLink.Json
