import Mathlib.Data.List.TakeWhile
import SceneLink.Json.Reader
import SceneLink.Proofs.Text.Numeral

namespace SceneLink.Json

open Text

inductive FractionRead (cs : List Char) : Option (List Char) → List Char → Prop
  | none : FractionRead cs none cs
  | some {digits rest} (htext : cs = '.' :: (digits ++ rest)) (hdigits : Digits digits) (hne : digits ≠ []) :
      FractionRead cs (some digits) rest

inductive ExponentRead (cs : List Char) : Option Int → List Char → Prop
  | none : ExponentRead cs none cs
  | some {mark sign digits rest} (htext : cs = mark :: (sign ++ (digits ++ rest)))
      (hmark : mark = 'e' ∨ mark = 'E') (hsign : sign ∈ [[], ['+'], ['-']]) (hdigits : Digits digits)
      (hne : digits ≠ []) :
      ExponentRead cs
        (some (if decide (sign = ['-']) then -(ofDigits digits : Int) else ofDigits digits)) rest

inductive NumberRead (cs : List Char) (n : Number) (rest : List Char) : Prop
  | parts {negative whole tail fraction behind exponent}
      (htext : cs = if negative then '-' :: (whole ++ tail) else whole ++ tail) (hwhole : Digits whole)
      (hpart : isWholePart whole = true) (hfraction : readFraction tail = some (fraction, behind))
      (hexponent : readExponent behind = some (exponent, rest))
      (hnumber : number? negative whole fraction exponent = some n) : NumberRead cs n rest

inductive ValueRead (fuel room : Nat) (cs : List Char) : Json → List Char → Prop
  | null {rest} (hword : skip cs = 'n' :: 'u' :: 'l' :: 'l' :: rest) : ValueRead fuel room cs null rest
  | true {rest} (hword : skip cs = 't' :: 'r' :: 'u' :: 'e' :: rest) : ValueRead fuel room cs (bool true) rest
  | false {rest} (hword : skip cs = 'f' :: 'a' :: 'l' :: 's' :: 'e' :: rest) :
      ValueRead fuel room cs (bool false) rest
  | string {tail s rest} (hquote : skip cs = '"' :: tail) (hstring : readString tail = some (s, rest)) :
      ValueRead fuel room cs (str (String.ofList s)) rest
  | emptyArray {tail rest} (hopen : skip cs = '[' :: tail) (hroom : room ≠ 0) (hclose : skip tail = ']' :: rest) :
      ValueRead fuel room cs (arr []) rest
  | array {tail items rest} (hopen : skip cs = '[' :: tail) (hroom : room ≠ 0)
      (hclose : (skip tail).head? ≠ some ']')
      (hitems : readItems fuel (room - 1) (skip tail) = some (items, rest)) :
      ValueRead fuel room cs (arr items) rest
  | emptyObject {tail rest} (hopen : skip cs = '\x7b' :: tail) (hroom : room ≠ 0)
      (hclose : skip tail = '\x7d' :: rest) : ValueRead fuel room cs (obj []) rest
  | object {tail fields rest} (hopen : skip cs = '\x7b' :: tail) (hroom : room ≠ 0)
      (hclose : (skip tail).head? ≠ some '\x7d')
      (hfields : readFields fuel (room - 1) (skip tail) = some (fields, rest)) :
      ValueRead fuel room cs (ofFields fields) rest
  | number {n rest} (hnumber : readNumber (skip cs) = some (n, rest)) : ValueRead fuel room cs (num n) rest

inductive ItemsRead (fuel room : Nat) (cs : List Char) : List Json → List Char → Prop
  | last {item tail rest} (hitem : readValue fuel room cs = some (item, tail)) (hclose : skip tail = ']' :: rest) :
      ItemsRead fuel room cs [item] rest
  | cons {item tail more items rest} (hitem : readValue fuel room cs = some (item, tail))
      (hcomma : skip tail = ',' :: more) (hitems : readItems fuel room more = some (items, rest)) :
      ItemsRead fuel room cs (item :: items) rest

inductive NameRead (cs : List Char) (name : List Char) (rest : List Char) : Prop
  | quoted {tail behind} (hquote : skip cs = '"' :: tail) (hname : readString tail = some (name, behind))
      (hcolon : skip behind = ':' :: rest) : NameRead cs name rest

inductive FieldsRead (fuel room : Nat) (cs : List Char) : List (String × Json) → List Char → Prop
  | last {name behind value tail rest} (hname : NameRead cs name behind)
      (hvalue : readValue fuel room behind = some (value, tail)) (hclose : skip tail = '\x7d' :: rest) :
      FieldsRead fuel room cs [(String.ofList name, value)] rest
  | cons {name behind value tail more fields rest} (hname : NameRead cs name behind)
      (hvalue : readValue fuel room behind = some (value, tail)) (hcomma : skip tail = ',' :: more)
      (hfields : readFields fuel room more = some (fields, rest)) :
      FieldsRead fuel room cs ((String.ofList name, value) :: fields) rest

section Reading

variable {fuel room : Nat} {cs rest : List Char}

theorem head?_ne_of_forall {c : Char} (h : ∀ tail, cs = c :: tail → False) : cs.head? ≠ some c := fun hhead => by
  obtain ⟨tail, rfl⟩ := List.head?_eq_some_iff.1 hhead
  exact h tail rfl

theorem spanDigits_spec (cs : List Char) : Digits (spanDigits cs).1 ∧ cs = (spanDigits cs).1 ++ (spanDigits cs).2 :=
  ⟨fun _ => List.mem_takeWhile_imp, List.takeWhile_append_dropWhile.symm⟩

theorem readFraction_cases {fraction : Option (List Char)} (h : readFraction cs = some (fraction, rest)) :
    FractionRead cs fraction rest := by
  unfold readFraction at h
  split at h
  · next tail =>
    obtain ⟨hdigits, htail⟩ := spanDigits_spec tail
    dsimp only at h
    split at h
    · cases h
    · next hne =>
      cases h
      exact .some (congrArg _ htail) hdigits hne
  · cases h
    exact .none

theorem readExponent_cases {exponent : Option Int} (h : readExponent cs = some (exponent, rest)) :
    ExponentRead cs exponent rest := by
  unfold readExponent at h
  split at h
  · cases h
    exact .none
  · next mark tail =>
    split at h
    · next hmark =>
      obtain ⟨sign, hsign, digits, htail, hsplit⟩ := splitSign_spec tail
      obtain ⟨hdigits, hspan⟩ := spanDigits_spec digits
      rw [hsplit] at h
      dsimp only at h
      split at h
      · cases h
      · next hne =>
        cases h
        exact .some (by rw [htail, ← hspan]) hmark hsign hdigits hne
    · cases h
      exact .none

theorem readNumber_cases {n : Number} (h : readNumber cs = some (n, rest)) : NumberRead cs n rest := by
  unfold readNumber at h
  split at h
  next negative body hsign =>
  obtain ⟨hwhole, hbody⟩ := spanDigits_spec body
  have htext : cs = if negative then '-' :: body else body := by
    split at hsign
    · cases hsign
      rfl
    · cases hsign
      rfl
  rw [hbody] at htext
  dsimp only at h
  split at h
  · next hpart =>
    obtain ⟨⟨fraction, behind⟩, hfraction, h⟩ := Option.bind_eq_some_iff.1 h
    obtain ⟨⟨exponent, rest⟩, hexponent, h⟩ := Option.bind_eq_some_iff.1 h
    obtain ⟨m, hnumber, h⟩ := Option.bind_eq_some_iff.1 h
    cases h
    exact .parts htext hwhole hpart hfraction hexponent hnumber
  · cases h

theorem readValue_cases {json : Json} (h : readValue (fuel + 1) room cs = some (json, rest)) :
    ValueRead fuel room cs json rest := by
  unfold readValue at h
  split at h
  · next hword =>
    cases h
    exact .null hword
  · next hword =>
    cases h
    exact .true hword
  · next hword =>
    cases h
    exact .false hword
  · next hquote =>
    obtain ⟨⟨s, more⟩, hstring, heq⟩ := Option.map_eq_some_iff.1 h
    cases heq
    exact .string hquote hstring
  · next hopen =>
    split at h
    · cases h
    · next hroom =>
      split at h
      · next hclose =>
        cases h
        exact .emptyArray hopen hroom hclose
      · next hnone =>
        obtain ⟨⟨items, more⟩, hitems, heq⟩ := Option.map_eq_some_iff.1 h
        cases heq
        exact .array hopen hroom (head?_ne_of_forall hnone) hitems
  · next hopen =>
    split at h
    · cases h
    · next hroom =>
      split at h
      · next hclose =>
        cases h
        exact .emptyObject hopen hroom hclose
      · next hnone =>
        obtain ⟨⟨fields, more⟩, hfields, heq⟩ := Option.map_eq_some_iff.1 h
        cases heq
        exact .object hopen hroom (head?_ne_of_forall hnone) hfields
  · obtain ⟨⟨n, more⟩, hnumber, heq⟩ := Option.map_eq_some_iff.1 h
    cases heq
    exact .number hnumber

theorem readItems_cases {items : List Json} (h : readItems (fuel + 1) room cs = some (items, rest)) :
    ItemsRead fuel room cs items rest := by
  unfold readItems at h
  split at h
  · cases h
  · next hitem =>
    split at h
    · next hcomma =>
      obtain ⟨⟨others, more⟩, hothers, heq⟩ := Option.map_eq_some_iff.1 h
      cases heq
      exact .cons hitem hcomma hothers
    · next hclose =>
      cases h
      exact .last hitem hclose
    · cases h

theorem readFields_cases {fields : List (String × Json)}
    (h : readFields (fuel + 1) room cs = some (fields, rest)) : FieldsRead fuel room cs fields rest := by
  unfold readFields at h
  split at h
  · next hquote =>
    split at h
    · cases h
    · next hname =>
      split at h
      · next hcolon =>
        split at h
        · cases h
        · next hvalue =>
          dsimp only at h
          split at h
          · next hcomma =>
            obtain ⟨⟨others, more⟩, hothers, heq⟩ := Option.map_eq_some_iff.1 h
            cases heq
            exact .cons (.quoted hquote hname hcolon) hvalue hcomma hothers
          · next hclose =>
            cases h
            exact .last (.quoted hquote hname hcolon) hvalue hclose
          · cases h
      · cases h
  · cases h

-- A text denotes a value if nothing but gaps is left of it.
theorem parseChars?_iff {json : Json} : parseChars? cs = some json ↔
    ∃ rest, readValue (fuelFor cs) maxDepth cs = some (json, rest) ∧ skip rest = [] := by
  unfold parseChars?
  constructor
  · intro h
    split at h
    · next value rest hread =>
      split at h
      · next hskip =>
        cases h
        exact ⟨rest, hread, hskip⟩
      · cases h
    · cases h
  · rintro ⟨rest, hread, hskip⟩
    rw [hread]
    exact if_pos hskip

end Reading

end SceneLink.Json
