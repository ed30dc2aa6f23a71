import SceneLink.Json.Reader
import SceneLink.Proofs.Dict
import SceneLink.Proofs.Json.Number

namespace SceneLink.Json

open Text

section Tokens

theorem skip_cons {c : Char} {cs : List Char} (h : isGap c = false) : skip (c :: cs) = c :: cs := by
  simp [skip, h]

private theorem hex4?_hexDigit : ∀ n < 32, hex4? '0' '0' (hexDigit (n / 16)) (hexDigit (n % 16)) = some n := by
  decide +kernel

-- One character of a string, written and read.
theorem readString_renderChar (c : Char) (cs : List Char) :
    readString (renderChar c ++ cs) = (readString cs).map fun (s, rest) => (c :: s, rest) := by
  unfold renderChar
  split
  · rfl
  · rfl
  · rfl
  · rfl
  · rfl
  · next hquote hslash _ _ _ =>
    have hchar : ∀ n, c.toNat = n → c = Char.ofNat n := fun n h => by rw [← h, Char.ofNat_toNat]
    split
    · next h => rw [hchar 8 h]; rfl
    · split
      · next h => rw [hchar 12 h]; rfl
      · split
        · next hsmall =>
          have hread := hex4?_hexDigit c.toNat hsmall
          have htrail : isTrailSurrogate c.toNat = false := by
            simp only [isTrailSurrogate, Bool.and_eq_false_iff, decide_eq_false_iff_not]
            omega
          have hlead : isLeadSurrogate c.toNat = false := by
            simp only [isLeadSurrogate, Bool.and_eq_false_iff, decide_eq_false_iff_not]
            omega
          simp only [List.cons_append, List.nil_append]
          rw [readString]
          simp [hread, htrail, hlead, Char.ofNat_toNat]
        · next hlarge =>
          simp only [List.cons_append, List.nil_append]
          have hquote' : c ≠ '"' := hquote
          have hslash' : c ≠ '\\' := hslash
          rw [readString.eq_def]
          dsimp only
          rw [if_neg hquote', if_neg hslash', if_neg hlarge]

theorem readString_flatMap (s rest : List Char) :
    readString (s.flatMap renderChar ++ '"' :: rest) = some (s, rest) := by
  induction s with
  | nil => rw [List.flatMap_nil, List.nil_append, readString.eq_def]; simp
  | cons c s ih => rw [List.flatMap_cons, List.append_assoc, readString_renderChar, ih]; rfl

theorem renderString_append (s : String) (rest : List Char) :
    renderString s ++ rest = '"' :: (s.toList.flatMap renderChar ++ '"' :: rest) := by
  simp [renderString]

end Tokens

mutual

-- The value that its text denotes: numbers are read again, and of fields of one name the last one
-- is kept.
def reread : Json → Json
  | num n => num n.reread
  | arr items => arr (rereadItems items)
  | obj fields => ofFields (rereadFields fields)
  | null => null
  | bool b => bool b
  | str s => str s

def rereadItems : List Json → List Json
  | [] => []
  | a :: as => reread a :: rereadItems as

def rereadFields : List (String × Json) → List (String × Json)
  | [] => []
  | (k, a) :: as => (k, reread a) :: rereadFields as

end

section Heads

-- What a value may start with.
def Starts (cs : List Char) : Prop :=
  ∃ c rest, cs = c :: rest ∧ isGap c = false ∧ c ≠ ']' ∧ c ≠ '}'

private theorem starts_append {cs : List Char} (h : Starts cs) (more : List Char) : Starts (cs ++ more) := by
  obtain ⟨c, rest, rfl, hc⟩ := h
  exact ⟨c, rest ++ more, rfl, hc⟩

theorem skip_of_starts {cs : List Char} (h : Starts cs) : skip cs = cs := by
  obtain ⟨c, rest, rfl, hgap, -⟩ := h
  exact skip_cons hgap

private theorem not_gap_of_isDigit {c : Char} (h : isDigit c = true) :
    isGap c = false ∧ c ≠ ']' ∧ c ≠ '}' ∧ c ≠ 'n' ∧ c ≠ 't' ∧ c ≠ 'f' ∧
      c ≠ '"' ∧ c ≠ '[' ∧ c ≠ '{' := by
  have hne : ∀ d : Char, isDigit d = false → c ≠ d := by
    rintro d hd rfl
    exact Bool.false_ne_true (hd.symm.trans h)
  refine ⟨?_, hne _ rfl, hne _ rfl, hne _ rfl, hne _ rfl, hne _ rfl, hne _ rfl, hne _ rfl, hne _ rfl⟩
  simp [isGap, hne ' ' rfl, hne '\t' rfl, hne '\n' rfl, hne '\r' rfl]

theorem renderNumber_head (n : Number) :
    ∃ c cs, renderNumber n = c :: cs ∧ (c = '-' ∨ isDigit c = true) := by
  have hsigned : ∀ negative (m : Numeral), m.Proper →
      ∃ c cs, signed negative m.text = c :: cs ∧ (c = '-' ∨ isDigit c = true) := by
    intro negative m hm
    cases negative with
    | true => exact ⟨'-', m.text, rfl, .inl rfl⟩
    | false =>
        cases hw : m.whole with
        | nil =>
            have := hm.isWholePart
            rw [hw] at this
            cases this
        | cons c cs =>
            refine ⟨c, cs ++ (fractionText m.fraction ++ exponentText m.exponent), ?_, .inr ?_⟩
            · change m.text = _
              rw [Numeral.text, hw]
              rfl
            · exact hm.whole c (hw ▸ List.mem_cons_self)
  cases n with
  | float x =>
      obtain ⟨m, htext, hproper, -⟩ := renderDouble_eq x
      change ∃ c cs, renderDouble x = _ ∧ _
      rw [htext]
      exact hsigned _ m hproper
  | int n low high =>
      cases n with
      | ofNat n => simpa [Numeral.text, fractionText, exponentText, signed, renderNumber, renderInt]
          using hsigned false _ (proper_toDigits n)
      | negSucc n => exact ⟨'-', Nat.toDigits 10 (n + 1), rfl, .inl rfl⟩

theorem starts_render (json : Json) : Starts json.render := by
  cases json with
  | null => exact ⟨_, _, rfl, rfl, by decide, by decide⟩
  | bool b => cases b <;> exact ⟨_, _, rfl, rfl, by decide, by decide⟩
  | str s => exact ⟨_, _, rfl, rfl, by decide, by decide⟩
  | arr items => exact ⟨_, _, rfl, rfl, by decide, by decide⟩
  | obj fields => exact ⟨_, _, rfl, rfl, by decide, by decide⟩
  | num n =>
      obtain ⟨c, cs, htext, hc⟩ := renderNumber_head n
      refine ⟨c, cs, htext, ?_⟩
      rcases hc with rfl | hc
      · decide
      · exact ⟨(not_gap_of_isDigit hc).1, (not_gap_of_isDigit hc).2.1, (not_gap_of_isDigit hc).2.2.1⟩

private theorem starts_renderItems (a : Json) (as : List Json) : Starts (renderItems (a :: as)) := by
  cases as with
  | nil => exact starts_render a
  | cons b bs => exact starts_append (starts_render a) _

private theorem renderFields_head (k : String) (a : Json) (as : List (String × Json)) :
    ∃ tail, renderFields ((k, a) :: as) = '"' :: tail := by
  cases as with
  | nil => exact ⟨_, rfl⟩
  | cons b bs => exact ⟨_, rfl⟩

theorem readValue_number {c : Char} {cs : List Char} (hc : c = '-' ∨ isDigit c = true)
    (fuel room : Nat) :
    readValue (fuel + 1) room (c :: cs) = (readNumber (c :: cs)).map fun (n, cs) => (num n, cs) := by
  have hgap : isGap c = false := by
    rcases hc with rfl | hc
    · rfl
    · exact (not_gap_of_isDigit hc).1
  have hne : ∀ d ∈ ['n', 't', 'f', '"', '[', '{'], c ≠ d := by
    rcases hc with rfl | hc
    · simp
    · have := not_gap_of_isDigit hc
      simp only [List.forall_mem_cons]
      simp [this]
  unfold readValue
  rw [skip_cons hgap]
  split
  · next h => exact absurd (List.cons.inj h).1 (hne _ (by decide))
  · next h => exact absurd (List.cons.inj h).1 (hne _ (by decide))
  · next h => exact absurd (List.cons.inj h).1 (hne _ (by decide))
  · next h => exact absurd (List.cons.inj h).1 (hne _ (by decide))
  · next h => exact absurd (List.cons.inj h).1 (hne _ (by decide))
  · next h => exact absurd (List.cons.inj h).1 (hne _ (by decide))
  · rfl

theorem length_render_pos (json : Json) : 0 < json.render.length := by
  obtain ⟨c, cs, h, -⟩ := starts_render json
  rw [h]
  exact Nat.succ_pos _

end Heads

-- What follows an item of an array, and what follows a field of an object.
theorem closes_cons {c : Char} (h : c = ',' ∨ c = ']' ∨ c = '}') (rest : List Char) :
    Closes (c :: rest) := by
  intro d hd
  cases hd
  exact h

theorem renderItems_cons_cons (a b : Json) (bs : List Json) :
    renderItems (a :: b :: bs) = render a ++ ',' :: renderItems (b :: bs) := rfl

theorem renderFields_cons_cons (k : String) (a : Json) (f : String × Json)
    (fs : List (String × Json)) :
    renderFields ((k, a) :: f :: fs) = renderString k ++ ':' :: render a ++ ',' :: renderFields (f :: fs) :=
  rfl

mutual

-- Each level takes two units of fuel: one for the bracket, one for the item behind it.
theorem readValue_render (json : Json) (fuel room : Nat) (rest : List Char)
    (hdepth : json.depth ≤ room) (hfuel : 2 * json.render.length ≤ fuel) (h : Closes rest) :
    readValue fuel room (json.render ++ rest) = some (json.reread, rest) := by
  have hpos := length_render_pos json
  obtain ⟨fuel, rfl⟩ : ∃ f, fuel = f + 1 := ⟨fuel - 1, by omega⟩
  cases json with
  | null => rfl
  | bool b => cases b <;> rfl
  | num n =>
      obtain ⟨c, cs, htext, hc⟩ := renderNumber_head n
      have hread := n.readNumber_renderNumber h
      rw [htext] at hread
      rw [render, htext, List.cons_append, readValue_number hc, ← List.cons_append, hread]
      rfl
  | str s =>
      rw [render, renderString_append, readValue, skip_cons rfl]
      simp only [readString_flatMap, Option.map_some, String.ofList_toList, reread]
  | arr items =>
      simp only [depth] at hdepth
      simp only [render, List.cons_append, List.length_cons, List.length_append, List.append_assoc,
        List.nil_append] at hfuel ⊢
      rw [readValue, skip_cons rfl]
      simp only [if_neg (by omega : ¬room = 0)]
      cases items with
      | nil => simp [renderItems, skip_cons, isGap, reread, rereadItems]
      | cons a as =>
          have hstart : Starts (renderItems (a :: as) ++ ']' :: rest) :=
            starts_append (starts_renderItems a as) _
          have hitems := readItems_render a as fuel (room - 1) rest
            (by omega) (by omega)
          rw [skip_of_starts hstart]
          obtain ⟨c, cs, hcs, -, hclose, -⟩ := hstart
          rw [hcs] at hitems ⊢
          split
          · next heq => exact absurd (List.cons.inj heq).1 hclose
          · rw [hitems]
            rfl
  | obj fields =>
      simp only [depth] at hdepth
      simp only [render, List.cons_append, List.length_cons, List.length_append, List.append_assoc,
        List.nil_append] at hfuel ⊢
      rw [readValue, skip_cons rfl]
      simp only [if_neg (by omega : ¬room = 0)]
      cases fields with
      | nil => simp [renderFields, skip_cons, isGap, reread, rereadFields, ofFields]; rfl
      | cons field more =>
          obtain ⟨k, a⟩ := field
          have hfields := readFields_render k a more fuel (room - 1) rest
            (by omega) (by omega)
          obtain ⟨tail, htail⟩ := renderFields_head k a more
          rw [htail, List.cons_append] at hfields ⊢
          rw [skip_cons rfl]
          split
          · next heq => exact absurd (List.cons.inj heq).1 (by decide)
          · rw [hfields]
            rfl
termination_by fuel

theorem readItems_render (a : Json) (as : List Json) (fuel room : Nat) (rest : List Char)
    (hdepth : depthItems (a :: as) ≤ room)
    (hfuel : 2 * (renderItems (a :: as)).length + 1 ≤ fuel) :
    readItems fuel room (renderItems (a :: as) ++ ']' :: rest) =
      some (rereadItems (a :: as), rest) := by
  obtain ⟨fuel, rfl⟩ : ∃ f, fuel = f + 1 := ⟨fuel - 1, by omega⟩
  simp only [depthItems] at hdepth
  cases as with
  | nil =>
      simp only [renderItems] at hfuel ⊢
      have ha := readValue_render a fuel room (']' :: rest)
        (by omega) (by omega) (closes_cons (by simp) _)
      rw [readItems, ha]
      rfl
  | cons b bs =>
      simp only [renderItems, List.length_append, List.length_cons] at hfuel
      have ha := readValue_render a fuel room (',' :: (renderItems (b :: bs) ++ ']' :: rest))
        (by omega) (by omega) (closes_cons (by simp) _)
      have hmore := readItems_render b bs fuel room rest
        (by omega) (by omega)
      rw [renderItems_cons_cons, List.append_assoc, List.cons_append, readItems, ha]
      dsimp only
      rw [skip_cons rfl]
      simp only [hmore, Option.map_some, rereadItems]
termination_by fuel

theorem readFields_render (k : String) (a : Json) (as : List (String × Json)) (fuel room : Nat)
    (rest : List Char) (hdepth : depthFields ((k, a) :: as) ≤ room)
    (hfuel : 2 * (renderFields ((k, a) :: as)).length + 1 ≤ fuel) :
    readFields fuel room (renderFields ((k, a) :: as) ++ '}' :: rest) =
      some (rereadFields ((k, a) :: as), rest) := by
  obtain ⟨fuel, rfl⟩ : ∃ f, fuel = f + 1 := ⟨fuel - 1, by omega⟩
  simp only [depthFields] at hdepth
  cases as with
  | nil =>
      simp only [renderFields, List.length_append, List.length_cons] at hfuel
      have ha := readValue_render a fuel room ('}' :: rest)
        (by omega) (by omega) (closes_cons (by simp) _)
      rw [renderFields, List.append_assoc, renderString_append, List.cons_append, readFields,
        skip_cons rfl]
      simp only [readString_flatMap, skip_cons (c := ':') rfl, ha, String.ofList_toList]
      rfl
  | cons field more =>
      obtain ⟨l, b⟩ := field
      simp only [renderFields, List.length_append, List.length_cons] at hfuel
      have ha := readValue_render a fuel room (',' :: (renderFields ((l, b) :: more) ++ '}' :: rest))
        (by omega) (by omega) (closes_cons (by simp) _)
      have hmore := readFields_render l b more fuel room rest
        (by omega) (by omega)
      rw [renderFields_cons_cons, List.append_assoc, List.append_assoc, renderString_append, List.cons_append,
        List.cons_append, readFields, skip_cons rfl]
      simp only [readString_flatMap, skip_cons (c := ':') rfl, ha, String.ofList_toList]
      rw [skip_cons rfl]
      simp only [hmore, Option.map_some, rereadFields]
termination_by fuel

end

theorem parseChars?_render {json : Json} (hdepth : json.depth ≤ maxDepth) :
    parseChars? json.render = some json.reread := by
  have hread := readValue_render json (fuelFor json.render) maxDepth [] hdepth
    (Nat.le_add_right _ _) (fun _ h => nomatch h)
  rw [List.append_nil] at hread
  unfold parseChars?
  rw [hread]
  rfl

section Exact

mutual

-- Every number is the number that its text denotes.
def Exact : Json → Prop
  | num n => n.reread = n
  | arr items => ExactItems items
  | obj fields => ExactFields fields
  | _ => True

def ExactItems : List Json → Prop
  | [] => True
  | a :: as => Exact a ∧ ExactItems as

def ExactFields : List (String × Json) → Prop
  | [] => True
  | (_, a) :: as => Exact a ∧ ExactFields as

end

mutual

theorem reread_eq_self : (json : Json) → json.Sorted → json.Exact → json.reread = json
  | null, _, _ => rfl
  | bool _, _, _ => rfl
  | str _, _, _ => rfl
  | num n, _, hexact => congrArg num hexact
  | arr items, hsorted, hexact => congrArg arr (rereadItems_eq_self items hsorted hexact)
  | obj fields, hsorted, hexact => by
      rw [reread, rereadFields_eq_self fields hsorted.2 hexact, ofFields,
        Dict.ofList_eq_self hsorted.1]

theorem rereadItems_eq_self :
    (items : List Json) → SortedItems items → ExactItems items → rereadItems items = items
  | [], _, _ => rfl
  | a :: as, hsorted, hexact => by
      rw [rereadItems, reread_eq_self a hsorted.1 hexact.1,
        rereadItems_eq_self as hsorted.2 hexact.2]

theorem rereadFields_eq_self : (fields : List (String × Json)) → SortedFields fields →
    ExactFields fields → rereadFields fields = fields
  | [], _, _ => rfl
  | (k, a) :: as, hsorted, hexact => by
      rw [rereadFields, reread_eq_self a hsorted.1 hexact.1,
        rereadFields_eq_self as hsorted.2 hexact.2]

end

-- Not every number is exact. This one is written as 1.0000000000000001e-24, which is read as a
-- neighbour of it.
def inexact : Json := (parse? "1e-24").getD null

theorem render_reread_inexact : inexact.reread.render ≠ inexact.render := by decide +kernel

end Exact

end SceneLink.Json
