import Mathlib.Data.List.Basic
import SceneLink.Proofs.Dict
import SceneLink.Proofs.Json.Reading
import SceneLink.Proofs.Text.Numeral

namespace SceneLink

namespace Text

def weigh (w : Char → Nat) (cs : List Char) : Nat := cs.foldr (fun c n => w c + n) 0

section Weigh

variable {w : Char → Nat} {cs ds : List Char}

theorem weigh_cons (w : Char → Nat) (c : Char) (cs : List Char) : weigh w (c :: cs) = w c + weigh w cs := rfl

theorem weigh_one (cs : List Char) : weigh (fun _ => 1) cs = cs.length := by
  induction cs with
  | nil => rfl
  | cons c cs ih => rw [weigh_cons, ih, List.length_cons, Nat.add_comm]

theorem weigh_append (w : Char → Nat) (cs ds : List Char) :
    weigh w (cs ++ ds) = weigh w cs + weigh w ds := by
  induction cs with
  | nil => exact (Nat.zero_add _).symm
  | cons c cs ih => rw [List.cons_append, weigh_cons, weigh_cons, ih, Nat.add_assoc]

theorem weigh_le_of_sublist (h : cs.Sublist ds) : weigh w cs ≤ weigh w ds := by
  induction h with
  | slnil => exact Nat.le_refl _
  | cons d _ ih => exact Nat.le_trans ih (Nat.le_add_left _ _)
  | cons_cons c _ ih => exact Nat.add_le_add_left ih _

end Weigh

end Text

namespace Json

open Text

-- A text that stands somewhere in data, at any depth; the names of fields do not count.
inductive Holds : Json → String → Prop
  | here (s : String) : Holds (.str s) s
  | item {items : List Json} {item : Json} {s : String} (hitem : item ∈ items) (h : Holds item s) :
      Holds (.arr items) s
  | field {fields : List (String × Json)} {field : String × Json} {s : String} (hfield : field ∈ fields)
      (h : Holds field.2 s) : Holds (.obj fields) s

-- Weights of characters for which no escape weighs less than what it stands for.
structure Weight (w : Char → Nat) : Prop where
  pos : ∀ c, 1 ≤ w c
  le_four : ∀ c, w c ≤ 4
  shortEscape : ∀ {c x}, shortEscape? c = some x → w x = 1

theorem weight_one : Weight fun _ => 1 := ⟨fun _ => Nat.le_refl 1, fun _ => by decide, fun _ => rfl⟩

theorem weight_utf8Size : Weight Char.utf8Size := by
  refine ⟨Char.utf8Size_pos, Char.utf8Size_le_four, fun {c x} h => ?_⟩
  unfold shortEscape? at h
  split at h
  all_goals first | (cases h; rfl) | cases h

section Reader

variable {w : Char → Nat} {cs rest s : List Char}

-- What spells one character weighs at least as much as the character.
theorem weigh_spelt {x : Char} (spelling tail : List Char) (hx : w x ≤ weigh w spelling)
    (htail : ∀ {rest s : List Char}, readString tail = some (s, rest) →
      weigh w s + weigh w rest < weigh w tail)
    (h : (readString tail).map (fun (s, rest) => (x :: s, rest)) = some (s, rest)) :
    weigh w s + weigh w rest < weigh w (spelling ++ tail) := by
  obtain ⟨⟨s', rest'⟩, hread, heq⟩ := Option.map_eq_some_iff.1 h
  cases heq
  have hless := htail hread
  rw [weigh_append, weigh_cons]
  omega

private theorem weigh_escape (hw : Weight w) (a b c d : Char) : 4 ≤ weigh w ['\\', 'u', a, b, c, d] := by
  have hpos := hw.pos
  simp only [weigh, List.foldr]
  have ha := hpos a
  have hb := hpos b
  have hc := hpos c
  have hd := hpos d
  omega

theorem weigh_readString (hw : Weight w) (h : readString cs = some (s, rest)) :
    weigh w s + weigh w rest < weigh w cs := by
  fun_induction readString cs generalizing s rest with
  | case2 tail =>
      cases h
      have hquote := hw.pos '"'
      rw [weigh_cons]
      simp only [weigh, List.foldr]
      omega
  | case6 a b c d u _ _ _ a' b' c' d' tail v _ _ _ ih =>
      have hfirst := weigh_escape hw a b c d
      refine weigh_spelt ['\\', 'u', a, b, c, d, '\\', 'u', a', b', c', d'] tail ?_ ih h
      exact Nat.le_trans (hw.le_four _) (Nat.le_trans hfirst
        (weigh_le_of_sublist (List.sublist_append_left ['\\', 'u', a, b, c, d] ['\\', 'u', a', b', c', d'])))
  | case9 a b c d tail u _ _ _ _ ih =>
      exact weigh_spelt ['\\', 'u', a, b, c, d] tail (Nat.le_trans (hw.le_four _) (weigh_escape hw a b c d)) ih h
  | case11 e tail _ x hescape _ ih =>
      refine weigh_spelt ['\\', e] tail ?_ ih h
      rw [hw.shortEscape hescape]
      exact Nat.le_trans (hw.pos '\\') (weigh_le_of_sublist (List.sublist_append_left ['\\'] [e]))
  | case14 c tail _ _ _ ih => exact weigh_spelt [c] tail (Nat.le_refl _) ih h
  | _ => cases h

private theorem skip_suffix (cs : List Char) : skip cs <:+ cs := List.dropWhile_suffix _

private theorem readFraction_suffix {fraction : Option (List Char)}
    (h : readFraction cs = some (fraction, rest)) : rest <:+ cs := by
  cases readFraction_cases h with
  | none => exact List.suffix_rfl
  | @some digits rest htext => exact ⟨'.' :: digits, htext.symm⟩

private theorem readExponent_suffix {exponent : Option Int}
    (h : readExponent cs = some (exponent, rest)) : rest <:+ cs := by
  cases readExponent_cases h with
  | none => exact List.suffix_rfl
  | @some mark sign digits rest htext => exact ⟨mark :: (sign ++ digits), by rw [htext]; simp⟩

private theorem readNumber_suffix {n : Number} (h : readNumber cs = some (n, rest)) : rest <:+ cs := by
  obtain @⟨negative, whole, tail, fraction, behind, exponent, htext, -, -, hfraction, hexponent, -⟩ :=
    readNumber_cases h
  have htail : tail <:+ cs := by
    cases negative with
    | true => exact ⟨'-' :: whole, htext.symm⟩
    | false => exact ⟨whole, htext.symm⟩
  exact ((readExponent_suffix hexponent).trans (readFraction_suffix hfraction)).trans htail

theorem weigh_le_of_suffix (h : rest <:+ cs) : weigh w rest ≤ weigh w cs := weigh_le_of_sublist h.sublist

theorem weigh_skip (w : Char → Nat) (cs : List Char) : weigh w (skip cs) ≤ weigh w cs :=
  weigh_le_of_suffix (skip_suffix cs)

theorem weigh_of_skip (token : List Char) (h : skip cs = token ++ rest) : weigh w rest ≤ weigh w cs :=
  Nat.le_trans (weigh_le_of_suffix (h ▸ List.suffix_append token rest)) (weigh_skip w cs)

-- All texts in the data are lighter than the text it was read from.
def LighterThan (w : Char → Nat) (cs : List Char) (json : Json) : Prop :=
  ∀ s, json.Holds s → weigh w s.toList < weigh w cs

theorem LighterThan.mono {more : List Char} {json : Json} (h : LighterThan w cs json)
    (hle : weigh w cs ≤ weigh w more) : LighterThan w more json := fun s hs =>
  Nat.lt_of_lt_of_le (h s hs) hle

-- What is read with this much fuel is lighter, and nothing is added to what is left over.
structure ReadsLighter (w : Char → Nat) (fuel : Nat) : Prop where
  value : ∀ {room cs json rest}, readValue fuel room cs = some (json, rest) →
    weigh w rest ≤ weigh w cs ∧ LighterThan w cs json
  items : ∀ {room cs items rest}, readItems fuel room cs = some (items, rest) →
    weigh w rest ≤ weigh w cs ∧ ∀ item ∈ items, LighterThan w cs item
  fields : ∀ {room cs fields rest}, readFields fuel room cs = some (fields, rest) →
    weigh w rest ≤ weigh w cs ∧ ∀ field ∈ fields, LighterThan w cs field.2

variable {fuel room : Nat} {json : Json} {items : List Json} {fields : List (String × Json)}

theorem ReadsLighter.value_succ (hw : Weight w) (h : ReadsLighter w fuel)
    (hread : readValue (fuel + 1) room cs = some (json, rest)) :
    weigh w rest ≤ weigh w cs ∧ LighterThan w cs json := by
  cases readValue_cases hread with
  | null hword => exact ⟨weigh_of_skip ['n', 'u', 'l', 'l'] hword, by rintro _ ⟨⟩⟩
  | true hword => exact ⟨weigh_of_skip ['t', 'r', 'u', 'e'] hword, by rintro _ ⟨⟩⟩
  | false hword => exact ⟨weigh_of_skip ['f', 'a', 'l', 's', 'e'] hword, by rintro _ ⟨⟩⟩
  | @string tail s rest hquote hstring =>
      have hless := weigh_readString hw hstring
      have htail : weigh w tail ≤ weigh w cs := weigh_of_skip ['"'] hquote
      refine ⟨by omega, ?_⟩
      rintro _ ⟨⟩
      rw [String.toList_ofList]
      omega
  | emptyArray hopen _ hclose =>
      refine ⟨Nat.le_trans (weigh_of_skip [']'] hclose) (weigh_of_skip ['['] hopen), ?_⟩
      rintro _ ⟨⟩
      contradiction
  | @array tail items rest hopen _ _ hitems =>
      obtain ⟨hrest, hlight⟩ := h.items hitems
      have htail := Nat.le_trans (weigh_skip w tail) (weigh_of_skip ['['] hopen)
      refine ⟨Nat.le_trans hrest htail, ?_⟩
      rintro s ⟨⟩
      next item hitem hs => exact (hlight item hitem).mono htail s hs
  | emptyObject hopen _ hclose =>
      refine ⟨Nat.le_trans (weigh_of_skip ['\x7d'] hclose) (weigh_of_skip ['\x7b'] hopen), ?_⟩
      rintro _ ⟨⟩
      contradiction
  | @object tail fields rest hopen _ _ hfields =>
      obtain ⟨hrest, hlight⟩ := h.fields hfields
      have htail := Nat.le_trans (weigh_skip w tail) (weigh_of_skip ['\x7b'] hopen)
      refine ⟨Nat.le_trans hrest htail, ?_⟩
      rintro s ⟨⟩
      next field hfield hs => exact (hlight field (Dict.mem_of_mem_ofList hfield)).mono htail s hs
  | number hnumber =>
      exact ⟨Nat.le_trans (weigh_le_of_suffix (readNumber_suffix hnumber)) (weigh_skip w cs), by rintro _ ⟨⟩⟩

theorem ReadsLighter.items_succ (h : ReadsLighter w fuel)
    (hread : readItems (fuel + 1) room cs = some (items, rest)) :
    weigh w rest ≤ weigh w cs ∧ ∀ item ∈ items, LighterThan w cs item := by
  cases readItems_cases hread with
  | last hitem hclose =>
      obtain ⟨htail, hfirst⟩ := h.value hitem
      exact ⟨Nat.le_trans (weigh_of_skip [']'] hclose) htail, List.forall_mem_singleton.2 hfirst⟩
  | cons hitem hcomma hitems =>
      obtain ⟨htail, hfirst⟩ := h.value hitem
      obtain ⟨hrest, hlight⟩ := h.items hitems
      have hmore := Nat.le_trans (weigh_of_skip [','] hcomma) htail
      refine ⟨Nat.le_trans hrest hmore, List.forall_mem_cons.2 ⟨hfirst, fun other hother => ?_⟩⟩
      exact (hlight other hother).mono hmore

theorem weigh_of_name (hw : Weight w) {name : List Char} (h : NameRead cs name rest) :
    weigh w rest ≤ weigh w cs := by
  obtain @⟨tail, behind, hquote, hname, hcolon⟩ := h
  have hless := weigh_readString hw hname
  have hfirst : weigh w tail ≤ weigh w cs := weigh_of_skip ['"'] hquote
  have hsecond : weigh w rest ≤ weigh w behind := weigh_of_skip [':'] hcolon
  omega

theorem ReadsLighter.fields_succ (hw : Weight w) (h : ReadsLighter w fuel)
    (hread : readFields (fuel + 1) room cs = some (fields, rest)) :
    weigh w rest ≤ weigh w cs ∧ ∀ field ∈ fields, LighterThan w cs field.2 := by
  cases readFields_cases hread with
  | last hname hvalue hclose =>
      obtain ⟨htail, hlight⟩ := h.value hvalue
      have hstart := weigh_of_name hw hname
      exact ⟨Nat.le_trans (weigh_of_skip ['\x7d'] hclose) (Nat.le_trans htail hstart),
        List.forall_mem_singleton.2 (hlight.mono hstart)⟩
  | cons hname hvalue hcomma hfields =>
      obtain ⟨htail, hfirst⟩ := h.value hvalue
      obtain ⟨hrest, hlight⟩ := h.fields hfields
      have hstart := weigh_of_name hw hname
      have hmore := Nat.le_trans (weigh_of_skip [','] hcomma) (Nat.le_trans htail hstart)
      refine ⟨Nat.le_trans hrest hmore, List.forall_mem_cons.2 ⟨hfirst.mono hstart, fun other hother => ?_⟩⟩
      exact (hlight other hother).mono hmore

theorem readsLighter (hw : Weight w) (fuel : Nat) : ReadsLighter w fuel := by
  induction fuel with
  | zero => exact ⟨nofun, nofun, nofun⟩
  | succ fuel ih => exact ⟨ih.value_succ hw, ih.items_succ, ih.fields_succ hw⟩

theorem weigh_of_parse? (hw : Weight w) {text s : String} (h : parse? text = some json)
    (hs : json.Holds s) : weigh w s.toList < weigh w text.toList := by
  obtain ⟨rest, hread, -⟩ := parseChars?_iff.1 h
  exact ((readsLighter hw _).value hread).2 s hs

end Reader

end Json

end SceneLink
