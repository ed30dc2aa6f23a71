import SceneLink.Proofs.Json.RoundTrip
import SceneLink.Proofs.Json.Weight
import SceneLink.Proofs.Text.Trim

namespace SceneLink.Json

open Text

section Gaps

def Gaps (cs : List Char) : Prop := ∀ c ∈ cs, isGap c = true

variable {gaps : List Char} {fuel room : Nat}

theorem isBlank_of_isGap {c : Char} (h : isGap c = true) : isBlank c = true := by
  simp only [isGap, Bool.or_eq_true, decide_eq_true_eq] at h
  rcases h with ((rfl | rfl) | rfl) | rfl <;> rfl

theorem Gaps.blank (h : Gaps gaps) : Blank gaps := fun c hc => isBlank_of_isGap (h c hc)

theorem exists_gaps (cs : List Char) : ∃ gaps, Gaps gaps ∧ cs = gaps ++ skip cs :=
  ⟨cs.takeWhile isGap, fun _ => List.mem_takeWhile_imp, List.takeWhile_append_dropWhile.symm⟩

private theorem skip_gaps (h : Gaps gaps) (cs : List Char) : skip (gaps ++ cs) = skip cs :=
  List.dropWhile_append_of_pos h

theorem skip_eq_nil {cs : List Char} : skip cs = [] ↔ Gaps cs := List.dropWhile_eq_nil_iff

theorem skip_solid {cs : List Char} (h : Solid cs) (more : List Char) : skip (cs ++ more) = cs ++ more := by
  obtain ⟨c, tail, rfl⟩ := List.exists_cons_of_ne_nil h.ne_nil
  refine skip_cons (Bool.eq_false_iff.2 fun hgap => ?_)
  have hblank := isBlank_of_isGap hgap
  rw [h.head c rfl] at hblank
  cases hblank

-- Gaps in front are not seen.
theorem readValue_gaps (h : Gaps gaps) (fuel room : Nat) (cs : List Char) :
    readValue fuel room (gaps ++ cs) = readValue fuel room cs := by
  cases fuel with
  | zero => rfl
  | succ fuel =>
      unfold readValue
      rw [skip_gaps h]

theorem readItems_gaps (h : Gaps gaps) (fuel room : Nat) (cs : List Char) :
    readItems fuel room (gaps ++ cs) = readItems fuel room cs := by
  cases fuel with
  | zero => rfl
  | succ fuel =>
      unfold readItems
      rw [readValue_gaps h]

theorem readFields_gaps (h : Gaps gaps) (fuel room : Nat) (cs : List Char) :
    readFields fuel room (gaps ++ cs) = readFields fuel room cs := by
  cases fuel with
  | zero => rfl
  | succ fuel =>
      unfold readFields
      rw [skip_gaps h]

end Gaps

-- The end of the text, a character that ends an item, or a gap.
def Stops (rest : List Char) : Prop := ∀ c ∈ rest.head?, c = ',' ∨ c = ']' ∨ c = '}' ∨ isGap c = true

theorem stops_gaps {gaps rest : List Char} (h : Gaps gaps) (hrest : Stops rest) : Stops (gaps ++ rest) := by
  cases gaps with
  | nil => exact hrest
  | cons c tail =>
      intro d hd
      cases hd
      exact .inr (.inr (.inr (h c List.mem_cons_self)))

theorem Closes.stops {rest : List Char} (h : Closes rest) : Stops rest := fun c hc => by
  rcases h c hc with h | h | h
  · exact .inl h
  · exact .inr (.inl h)
  · exact .inr (.inr (.inl h))

-- A numeral goes on with none of these.
theorem Stops.noNumeral {rest : List Char} (h : Stops rest) :
    ∀ c ∈ rest.head?, isDigit c = false ∧ c ≠ '.' ∧ c ≠ 'e' ∧ c ≠ 'E' := by
  intro c hc
  rcases h c hc with rfl | rfl | rfl | hgap
  · decide
  · decide
  · decide
  · simp only [isGap, Bool.or_eq_true, decide_eq_true_eq] at hgap
    rcases hgap with ((rfl | rfl) | rfl) | rfl <;> decide

section Numbers

def EndsInDigit (cs : List Char) : Prop := ∃ c ∈ cs.getLast?, isDigit c = true

variable {cs rest : List Char}

private theorem endsInDigit_append (front : List Char) (h : EndsInDigit cs) : EndsInDigit (front ++ cs) := by
  obtain ⟨c, hc, hdigit⟩ := h
  refine ⟨c, ?_, hdigit⟩
  rw [Option.mem_def, List.getLast?_append, Option.mem_def.1 hc]
  rfl

private theorem endsInDigit_of_digits (hne : cs ≠ []) (h : Digits cs) : EndsInDigit cs :=
  ⟨cs.getLast hne, List.getLast?_eq_some_getLast hne, h _ (List.getLast_mem hne)⟩

theorem frame_readFraction {fraction : Option (List Char)} (h : readFraction cs = some (fraction, rest)) :
    ∃ core, cs = core ++ rest ∧ (core = [] ∨ (∃ tail, core = '.' :: tail) ∧ EndsInDigit core) ∧
      ∀ more, (∀ c ∈ more.head?, isDigit c = false ∧ c ≠ '.') →
        readFraction (core ++ more) = some (fraction, more) := by
  cases readFraction_cases h with
  | none =>
      refine ⟨[], rfl, .inl rfl, fun more hmore => ?_⟩
      change readFraction more = _
      unfold readFraction
      split
      · exact absurd rfl (hmore '.' rfl).2
      · rfl
  | @some digits rest htext hdigits hne =>
      have hlast := endsInDigit_append ['.'] (endsInDigit_of_digits hne hdigits)
      refine ⟨'.' :: digits, htext, .inr ⟨⟨_, rfl⟩, hlast⟩, fun more hmore => ?_⟩
      have hspan := spanDigits_append hdigits fun c hc => (hmore c hc).1
      simp only [List.cons_append, readFraction, hspan, if_neg hne]

theorem frame_readExponent {exponent : Option Int} (h : readExponent cs = some (exponent, rest)) :
    ∃ core, cs = core ++ rest ∧
      (core = [] ∨ (∃ c tail, core = c :: tail ∧ (c = 'e' ∨ c = 'E')) ∧ EndsInDigit core) ∧
      ∀ more, (∀ c ∈ more.head?, isDigit c = false ∧ c ≠ 'e' ∧ c ≠ 'E') →
        readExponent (core ++ more) = some (exponent, more) := by
  cases readExponent_cases h with
  | none =>
      refine ⟨[], rfl, .inl rfl, fun more hmore => ?_⟩
      cases more with
      | nil => rfl
      | cons c tail =>
          obtain ⟨-, hlower, hupper⟩ := hmore c rfl
          rw [List.nil_append, readExponent, if_neg (not_or.2 ⟨hlower, hupper⟩)]
  | @some mark sign digits rest htext hmark hsign hdigits hne =>
      have hlast := endsInDigit_append (mark :: sign) (endsInDigit_of_digits hne hdigits)
      refine ⟨mark :: (sign ++ digits), by rw [htext]; simp, .inr ⟨⟨mark, _, rfl, hmark⟩, hlast⟩,
        fun more hmore => ?_⟩
      have hbody : ∀ d ∈ (digits ++ more).head?, d ≠ '-' ∧ d ≠ '+' := by
        rw [List.head?_append_of_ne_nil _ hne]
        exact noSign_of_digits hdigits
      have hspan := spanDigits_append hdigits fun d hd => (hmore d hd).1
      simp only [List.cons_append, List.append_assoc, readExponent, if_pos hmark, splitSign_append hsign hbody,
        hspan, if_neg hne]

structure FramedNumber (core : List Char) (n : Number) : Prop where
  head : ∃ c tail, core = c :: tail ∧ (c = '-' ∨ isDigit c = true)
  last : EndsInDigit core
  reads : ∀ more, Stops more → readNumber (core ++ more) = some (n, more)

theorem frame_readNumber {n : Number} (h : readNumber cs = some (n, rest)) :
    ∃ core, cs = core ++ rest ∧ FramedNumber core n := by
  obtain @⟨negative, whole, tail, fraction, behind, exponent, htext, hwhole, hpart, hfraction, hexponent,
    hnumber⟩ := readNumber_cases h
  have hcs : cs = signed negative (whole ++ tail) := htext
  obtain ⟨point, hpoint, hpoints, hreadPoint⟩ := frame_readFraction hfraction
  obtain ⟨mark, hmark, hmarks, hreadMark⟩ := frame_readExponent hexponent
  have hne : whole ≠ [] := by
    rintro rfl
    cases hpart
  have hlast : EndsInDigit (whole ++ (point ++ mark)) := by
    rcases hmarks with rfl | ⟨-, hmarks⟩
    · rcases hpoints with rfl | ⟨-, hpoints⟩
      · rw [List.append_nil, List.append_nil]
        exact endsInDigit_of_digits hne hwhole
      · rw [List.append_nil]
        exact endsInDigit_append whole hpoints
    · exact endsInDigit_append whole (endsInDigit_append point hmarks)
  refine ⟨signed negative (whole ++ (point ++ mark)), ?_, ?_, ?_, fun more hmore => ?_⟩
  · rw [hcs, hpoint, hmark, ← signed_append, List.append_assoc, List.append_assoc]
  · cases negative with
    | true => exact ⟨'-', _, rfl, .inl rfl⟩
    | false =>
        obtain ⟨c, ds, rfl⟩ := List.exists_cons_of_ne_nil hne
        exact ⟨c, _, rfl, .inr (hwhole c List.mem_cons_self)⟩
  · cases negative with
    | true => exact endsInDigit_append ['-'] hlast
    | false => exact hlast
  · have hafterPoint : ∀ c ∈ (mark ++ more).head?, isDigit c = false ∧ c ≠ '.' := by
      rcases hmarks with rfl | ⟨⟨c, _, rfl, hc⟩, -⟩
      · exact fun c hc => ⟨(hmore.noNumeral c hc).1, (hmore.noNumeral c hc).2.1⟩
      · rintro _ ⟨⟩
        rcases hc with rfl | rfl <;> decide
    have hafterWhole : NoDigit (point ++ (mark ++ more)) := by
      rcases hpoints with rfl | ⟨⟨_, rfl⟩, -⟩
      · exact fun c hc => (hafterPoint c hc).1
      · exact noDigit_cons rfl
    have hafterMark : ∀ c ∈ more.head?, isDigit c = false ∧ c ≠ 'e' ∧ c ≠ 'E' :=
      fun c hc => ⟨(hmore.noNumeral c hc).1, (hmore.noNumeral c hc).2.2⟩
    rw [← signed_append, List.append_assoc, List.append_assoc,
      readNumber_eq_of_digits hwhole hpart negative hafterWhole, hreadPoint _ hafterPoint]
    simp only [Option.bind_eq_bind, Option.bind_some, hreadMark more hafterMark, hnumber]
    rfl

end Numbers

section Strings

structure FramedString (core : List Char) (s : List Char) : Prop where
  last : core.getLast? = some '"'
  reads : ∀ more, readString (core ++ more) = some (s, more)

variable {s cs rest : List Char}

private theorem frame_spelt {x : Char} (token : List Char) {tail : List Char}
    (htoken : ∀ more, readString (token ++ more) = (readString more).map fun (s, rest) => (x :: s, rest))
    (ih : ∀ {s rest}, readString tail = some (s, rest) → ∃ core, tail = core ++ rest ∧ FramedString core s)
    (h : (readString tail).map (fun (s, rest) => (x :: s, rest)) = some (s, rest)) :
    ∃ core, token ++ tail = core ++ rest ∧ FramedString core s := by
  obtain ⟨⟨s, rest⟩, hread, heq⟩ := Option.map_eq_some_iff.1 h
  cases heq
  obtain ⟨core, hcore, hframed⟩ := ih hread
  refine ⟨token ++ core, by rw [hcore, List.append_assoc], ?_, fun more => ?_⟩
  · rw [List.getLast?_append, hframed.last]
    rfl
  · rw [List.append_assoc, htoken, hframed.reads]
    rfl

theorem frame_readString (h : readString cs = some (s, rest)) :
    ∃ core, cs = core ++ rest ∧ FramedString core s := by
  fun_induction readString cs generalizing s rest with
  | case2 tail =>
      cases h
      exact ⟨['"'], rfl, rfl, fun more => by rw [List.singleton_append, readString.eq_def]; simp⟩
  | case6 a b c d u hu htrail hlead a' b' c' d' tail v hv htrail' _ ih =>
      refine frame_spelt ['\\', 'u', a, b, c, d, '\\', 'u', a', b', c', d'] (fun more => ?_) ih h
      simp only [List.cons_append, List.nil_append]
      rw [readString]
      simp [hu, htrail, hlead, hv, htrail']
  | case9 a b c d tail u hu htrail hlead _ ih =>
      refine frame_spelt ['\\', 'u', a, b, c, d] (fun more => ?_) ih h
      simp only [List.cons_append, List.nil_append]
      rw [readString]
      simp [hu, htrail, hlead]
  | case11 e tail _ x hescape _ ih =>
      have he : e ≠ 'u' := by
        rintro rfl
        cases hescape
      refine frame_spelt ['\\', e] (fun more => ?_) ih h
      simp only [List.cons_append, List.nil_append]
      rw [readString.eq_def]
      simp [hescape, he]
  | case14 c tail hquote hslash hlow ih =>
      refine frame_spelt [c] (fun more => ?_) ih h
      rw [List.singleton_append, readString.eq_def]
      dsimp only
      rw [if_neg hquote, if_neg hslash, if_neg hlow]
  | _ => cases h

end Strings

section Values

-- The text of a value, wherever it stands: it is read as the value, if what follows does not go on
-- with it.
structure Framed (room : Nat) (core : List Char) (json : Json) : Prop where
  solid : Solid core
  reads : ∀ {more fuel}, Stops more → 2 * core.length ≤ fuel →
    readValue fuel room (core ++ more) = some (json, more)

structure FramedItems (room : Nat) (core : List Char) (items : List Json) : Prop where
  solid : Solid core
  reads : ∀ {more fuel}, 2 * core.length ≤ fuel + 1 → readItems fuel room (core ++ more) = some (items, more)

structure FramedFields (room : Nat) (core : List Char) (fields : List (String × Json)) : Prop where
  solid : Solid core
  reads : ∀ {more fuel}, 2 * core.length ≤ fuel + 1 → readFields fuel room (core ++ more) = some (fields, more)

-- What is read with this much fuel is framed, behind the gaps in front of it.
structure ReadsFramed (fuel : Nat) : Prop where
  value : ∀ {room cs json rest}, readValue fuel room cs = some (json, rest) →
    ∃ core, skip cs = core ++ rest ∧ Framed room core json
  items : ∀ {room cs items rest}, readItems fuel room cs = some (items, rest) →
    ∃ core, skip cs = core ++ rest ∧ FramedItems room core items
  fields : ∀ {room cs fields rest}, readFields fuel room cs = some (fields, rest) →
    ∃ core, skip cs = core ++ rest ∧ FramedFields room core fields

variable {fuel room : Nat} {cs rest : List Char} {json : Json} {items : List Json} {fields : List (String × Json)}

private theorem framed_word {word : List Char} (hsolid : Solid word)
    (hread : ∀ fuel more, readValue (fuel + 1) room (word ++ more) = some (json, more)) : Framed room word json where
  solid := hsolid
  reads := fun {more fuel} _ hfuel => by
    have hpos := List.length_pos_of_ne_nil hsolid.ne_nil
    obtain ⟨fuel, rfl⟩ : ∃ f, fuel = f + 1 := ⟨fuel - 1, by omega⟩
    exact hread fuel more

theorem isBlank_of_isDigit {c : Char} (h : isDigit c = true) : isBlank c = false := by
  have hbounds : 48 ≤ c.toNat ∧ c.toNat ≤ 57 := by
    simpa [isDigit, Char.le_def, UInt32.le_iff_toNat_le] using h
  simp [isBlank]
  omega

theorem framed_number {core : List Char} {n : Number} (h : FramedNumber core n) : Framed room core (num n) := by
  obtain ⟨c, tail, rfl, hc⟩ := h.head
  obtain ⟨last, hlast, hdigit⟩ := h.last
  have hsolid : Solid (c :: tail) := by
    refine ⟨List.cons_ne_nil c tail, fun d hd => ?_, fun d hd => ?_⟩
    · cases hd
      rcases hc with rfl | hc
      · rfl
      · exact isBlank_of_isDigit hc
    · cases hlast.symm.trans hd
      exact isBlank_of_isDigit hdigit
  refine ⟨hsolid, fun {more fuel} hmore hfuel => ?_⟩
  obtain ⟨fuel, rfl⟩ : ∃ f, fuel = f + 1 := ⟨fuel - 1, by rw [List.length_cons] at hfuel; omega⟩
  have hread := h.reads more hmore
  rw [List.cons_append] at hread ⊢
  rw [readValue_number hc, hread]
  rfl

theorem framed_string {core s : List Char} (h : FramedString core s) :
    Framed room ('"' :: core) (str (String.ofList s)) := by
  have hne : core ≠ [] := by
    rintro rfl
    cases h.last
  have hsolid : Solid ('"' :: core) := by
    refine ⟨List.cons_ne_nil _ _, fun c hc => ?_, fun c hc => ?_⟩
    · cases hc
      rfl
    · rw [List.getLast?_cons_of_ne_nil hne, h.last] at hc
      cases hc
      rfl
  refine framed_word hsolid fun fuel more => ?_
  rw [List.cons_append, readValue, skip_cons rfl]
  simp only [h.reads more, Option.map_some]

section Brackets

variable {core gaps : List Char}

private theorem framed_emptyArray (hgaps : Gaps gaps) (hroom : room ≠ 0) : Framed room ('[' :: (gaps ++ [']'])) (arr []) := by
  refine framed_word ((solid_one rfl).append gaps (solid_one rfl)) fun fuel more => ?_
  rw [List.cons_append, readValue, skip_cons rfl, List.append_assoc]
  simp only [if_neg hroom, skip_gaps hgaps]
  rfl

private theorem framed_emptyObject (hgaps : Gaps gaps) (hroom : room ≠ 0) :
    Framed room ('\x7b' :: (gaps ++ ['\x7d'])) (obj []) := by
  refine framed_word ((solid_one rfl).append gaps (solid_one rfl)) fun fuel more => ?_
  rw [List.cons_append, readValue, skip_cons rfl, List.append_assoc]
  simp only [if_neg hroom, skip_gaps hgaps]
  rfl

theorem framed_array (hgaps : Gaps gaps) (hroom : room ≠ 0) (hopen : core.head? ≠ some ']')
    (h : FramedItems (room - 1) core items) : Framed room ('[' :: (gaps ++ core)) (arr items) := by
  refine ⟨(solid_one rfl).append gaps h.solid, fun {more fuel} _ hfuel => ?_⟩
  rw [List.length_cons, List.length_append] at hfuel
  obtain ⟨fuel, rfl⟩ : ∃ f, fuel = f + 1 := ⟨fuel - 1, by omega⟩
  have hread : readItems fuel (room - 1) (core ++ more) = some (items, more) := h.reads (by omega)
  rw [List.cons_append, readValue, skip_cons rfl, List.append_assoc]
  simp only [if_neg hroom, skip_gaps hgaps, skip_solid h.solid]
  split
  · next heq =>
    have hhead : (core ++ more).head? = core.head? := List.head?_append_of_ne_nil core h.solid.ne_nil
    rw [← hhead, heq] at hopen
    exact absurd rfl hopen
  · rw [hread]
    rfl

theorem framed_object (hgaps : Gaps gaps) (hroom : room ≠ 0) (hopen : core.head? ≠ some '\x7d')
    (h : FramedFields (room - 1) core fields) : Framed room ('\x7b' :: (gaps ++ core)) (ofFields fields) := by
  refine ⟨(solid_one rfl).append gaps h.solid, fun {more fuel} _ hfuel => ?_⟩
  rw [List.length_cons, List.length_append] at hfuel
  obtain ⟨fuel, rfl⟩ : ∃ f, fuel = f + 1 := ⟨fuel - 1, by omega⟩
  have hread : readFields fuel (room - 1) (core ++ more) = some (fields, more) := h.reads (by omega)
  rw [List.cons_append, readValue, skip_cons rfl, List.append_assoc]
  simp only [if_neg hroom, skip_gaps hgaps, skip_solid h.solid]
  split
  · next heq =>
    have hhead : (core ++ more).head? = core.head? := List.head?_append_of_ne_nil core h.solid.ne_nil
    rw [← hhead, heq] at hopen
    exact absurd rfl hopen
  · rw [hread]
    rfl

end Brackets

section Entries

variable {core gaps : List Char}

-- An item is read up to the gaps behind it, and then goes on or ends.
theorem readItems_item (h : Framed room core json) (hgaps : Gaps gaps) {c : Char} {more : List Char}
    (hc : c = ',' ∨ c = ']') (hfuel : 2 * core.length ≤ fuel) :
    readItems (fuel + 1) room (core ++ (gaps ++ c :: more)) =
      if c = ',' then (readItems fuel room more).map fun (items, cs) => (json :: items, cs)
      else some ([json], more) := by
  have hstops : Stops (gaps ++ c :: more) := by
    refine stops_gaps hgaps (Closes.stops (closes_cons ?_ more))
    rcases hc with h | h
    · exact .inl h
    · exact .inr (.inl h)
  rw [readItems, h.reads hstops hfuel]
  dsimp only
  rw [skip_gaps hgaps]
  rcases hc with rfl | rfl <;> rfl

private theorem framedItems_one (h : Framed room core json) (hgaps : Gaps gaps) :
    FramedItems room (core ++ (gaps ++ [']'])) [json] := by
  refine ⟨h.solid.append gaps (solid_one rfl), fun {more fuel} hfuel => ?_⟩
  rw [List.length_append, List.length_append, List.length_singleton] at hfuel
  obtain ⟨fuel, rfl⟩ : ∃ f, fuel = f + 1 :=
    ⟨fuel - 1, by have := List.length_pos_of_ne_nil h.solid.ne_nil; omega⟩
  rw [List.append_assoc, List.append_assoc, List.singleton_append,
    readItems_item h hgaps (.inr rfl) (by omega), if_neg (by decide)]

theorem framedItems_cons (h : Framed room core json) (hgaps : Gaps gaps) {gaps' rest : List Char}
    (hgaps' : Gaps gaps') (hrest : FramedItems room rest items) :
    FramedItems room (core ++ (gaps ++ ',' :: (gaps' ++ rest))) (json :: items) := by
  have hsolid : Solid (core ++ ((gaps ++ ',' :: gaps') ++ rest)) := h.solid.append _ hrest.solid
  rw [List.append_assoc, List.cons_append] at hsolid
  refine ⟨hsolid, fun {more fuel} hfuel => ?_⟩
  simp only [List.length_append, List.length_cons] at hfuel
  obtain ⟨fuel, rfl⟩ : ∃ f, fuel = f + 1 := ⟨fuel - 1, by omega⟩
  rw [List.append_assoc, List.append_assoc, List.cons_append, readItems_item h hgaps (.inl rfl) (by omega),
    if_pos rfl, List.append_assoc, readItems_gaps hgaps', hrest.reads (by omega)]
  rfl

inductive FramedName (name : List Char) : List Char → Prop
  | quoted {core before behind : List Char} (h : FramedString core name) (hbefore : Gaps before)
      (hbehind : Gaps behind) : FramedName name ('"' :: (core ++ (before ++ ':' :: behind)))

private theorem readFields_field {front name : List Char} (hname : FramedName name front) (h : Framed room core json)
    (hgaps : Gaps gaps) {c : Char} {more : List Char} (hc : c = ',' ∨ c = '\x7d') (hfuel : 2 * core.length ≤ fuel) :
    readFields (fuel + 1) room (front ++ (core ++ (gaps ++ c :: more))) =
      if c = ',' then (readFields fuel room more).map fun (fields, cs) => ((String.ofList name, json) :: fields, cs)
      else some ([(String.ofList name, json)], more) := by
  have hstops : Stops (gaps ++ c :: more) := by
    refine stops_gaps hgaps (Closes.stops (closes_cons ?_ more))
    rcases hc with h | h
    · exact .inl h
    · exact .inr (.inr h)
  cases hname with
  | quoted hquoted hbefore hbehind =>
      rw [List.cons_append, List.append_assoc, List.append_assoc, List.cons_append, readFields, skip_cons rfl]
      simp only [hquoted.reads, skip_gaps hbefore, skip_cons (c := ':') rfl, readValue_gaps hbehind,
        h.reads hstops hfuel, skip_gaps hgaps]
      rcases hc with rfl | rfl <;> rfl

theorem FramedName.solid {front name : List Char} (hname : FramedName name front) (middle : List Char)
    (h : Solid core) : Solid (front ++ (middle ++ core)) := by
  cases hname with
  | @quoted quoted before behind =>
      have hsolid := (solid_one (c := '"') rfl).append (quoted ++ (before ++ ':' :: behind) ++ middle) h
      rwa [List.append_assoc] at hsolid

private theorem framedFields_one {front name : List Char} (hname : FramedName name front) (h : Framed room core json)
    (hgaps : Gaps gaps) :
    FramedFields room (front ++ (core ++ (gaps ++ ['\x7d']))) [(String.ofList name, json)] := by
  refine ⟨hname.solid [] (h.solid.append gaps (solid_one rfl)), fun {more fuel} hfuel => ?_⟩
  simp only [List.length_append, List.length_singleton] at hfuel
  obtain ⟨fuel, rfl⟩ : ∃ f, fuel = f + 1 :=
    ⟨fuel - 1, by have := List.length_pos_of_ne_nil h.solid.ne_nil; omega⟩
  rw [List.append_assoc, List.append_assoc, List.append_assoc, List.singleton_append,
    readFields_field hname h hgaps (.inr rfl) (by omega), if_neg (by decide)]

theorem framedFields_cons {front name : List Char} (hname : FramedName name front) (h : Framed room core json)
    (hgaps : Gaps gaps) {gaps' rest : List Char} (hgaps' : Gaps gaps') (hrest : FramedFields room rest fields) :
    FramedFields room (front ++ (core ++ (gaps ++ ',' :: (gaps' ++ rest))))
      ((String.ofList name, json) :: fields) := by
  have hsolid : Solid (front ++ ((core ++ (gaps ++ ',' :: gaps')) ++ rest)) := hname.solid _ hrest.solid
  simp only [List.append_assoc, List.cons_append] at hsolid
  refine ⟨hsolid, fun {more fuel} hfuel => ?_⟩
  simp only [List.length_append, List.length_cons] at hfuel
  obtain ⟨fuel, rfl⟩ : ∃ f, fuel = f + 1 := ⟨fuel - 1, by omega⟩
  simp only [List.append_assoc, List.cons_append]
  rw [readFields_field hname h hgaps (.inl rfl) (by omega), if_pos rfl, readFields_gaps hgaps',
    hrest.reads (by omega)]
  rfl

end Entries

private theorem skip_skip (cs : List Char) : skip (skip cs) = skip cs := by
  obtain ⟨gaps, hgaps, hcs⟩ := exists_gaps cs
  rw [← skip_gaps hgaps (skip cs), ← hcs]

theorem exists_gaps_of_skip {cs tail : List Char} (h : skip cs = tail) : ∃ gaps, Gaps gaps ∧ cs = gaps ++ tail :=
  h ▸ exists_gaps cs

theorem ReadsFramed.value_succ (h : ReadsFramed fuel) (hread : readValue (fuel + 1) room cs = some (json, rest)) :
    ∃ core, skip cs = core ++ rest ∧ Framed room core json := by
  cases readValue_cases hread with
  | null hword =>
      exact ⟨['n', 'u', 'l', 'l'], hword,
        framed_word ((solid_one rfl).append ['u', 'l'] (solid_one rfl)) fun _ _ => rfl⟩
  | true hword =>
      exact ⟨['t', 'r', 'u', 'e'], hword,
        framed_word ((solid_one rfl).append ['r', 'u'] (solid_one rfl)) fun _ _ => rfl⟩
  | false hword =>
      exact ⟨['f', 'a', 'l', 's', 'e'], hword,
        framed_word ((solid_one rfl).append ['a', 'l', 's'] (solid_one rfl)) fun _ _ => rfl⟩
  | string hquote hstring =>
      obtain ⟨core, hcore, hframed⟩ := frame_readString hstring
      exact ⟨'"' :: core, by rw [hquote, hcore, List.cons_append], framed_string hframed⟩
  | emptyArray hopen hroom hclose =>
      obtain ⟨gaps, hgaps, htail⟩ := exists_gaps_of_skip hclose
      exact ⟨_, by rw [hopen, htail]; simp, framed_emptyArray hgaps hroom⟩
  | array hopen hroom hclose hitems =>
      obtain ⟨core, hcore, hframed⟩ := h.items hitems
      rw [skip_skip] at hcore
      obtain ⟨gaps, hgaps, htail⟩ := exists_gaps_of_skip hcore
      rw [hcore, List.head?_append_of_ne_nil core hframed.solid.ne_nil] at hclose
      exact ⟨_, by rw [hopen, htail]; simp, framed_array hgaps hroom hclose hframed⟩
  | emptyObject hopen hroom hclose =>
      obtain ⟨gaps, hgaps, htail⟩ := exists_gaps_of_skip hclose
      exact ⟨_, by rw [hopen, htail]; simp, framed_emptyObject hgaps hroom⟩
  | object hopen hroom hclose hfields =>
      obtain ⟨core, hcore, hframed⟩ := h.fields hfields
      rw [skip_skip] at hcore
      obtain ⟨gaps, hgaps, htail⟩ := exists_gaps_of_skip hcore
      rw [hcore, List.head?_append_of_ne_nil core hframed.solid.ne_nil] at hclose
      exact ⟨_, by rw [hopen, htail]; simp, framed_object hgaps hroom hclose hframed⟩
  | number hnumber =>
      obtain ⟨core, hcore, hframed⟩ := frame_readNumber hnumber
      exact ⟨core, hcore, framed_number hframed⟩

theorem ReadsFramed.items_succ (h : ReadsFramed fuel) (hread : readItems (fuel + 1) room cs = some (items, rest)) :
    ∃ core, skip cs = core ++ rest ∧ FramedItems room core items := by
  cases readItems_cases hread with
  | last hitem hclose =>
      obtain ⟨core, hcore, hframed⟩ := h.value hitem
      obtain ⟨gaps, hgaps, htail⟩ := exists_gaps_of_skip hclose
      exact ⟨_, by rw [hcore, htail]; simp, framedItems_one hframed hgaps⟩
  | cons hitem hcomma hitems =>
      obtain ⟨core, hcore, hframed⟩ := h.value hitem
      obtain ⟨behind, hbehind, hmore⟩ := h.items hitems
      obtain ⟨gaps, hgaps, htail⟩ := exists_gaps_of_skip hcomma
      obtain ⟨gaps', hgaps', hrest⟩ := exists_gaps_of_skip hbehind
      exact ⟨_, by rw [hcore, htail, hrest]; simp, framedItems_cons hframed hgaps hgaps' hmore⟩

-- The gaps in front of the value belong to the name.
theorem frame_name {name behind core : List Char} (h : NameRead cs name behind) (hcore : skip behind = core ++ rest) :
    ∃ front, skip cs = front ++ (core ++ rest) ∧ FramedName name front := by
  obtain ⟨hquote, hname, hcolon⟩ := h
  obtain ⟨quoted, hquoted, hstring⟩ := frame_readString hname
  obtain ⟨before, hbefore, hafterName⟩ := exists_gaps_of_skip hcolon
  obtain ⟨gaps, hgaps, hbehind⟩ := exists_gaps_of_skip hcore
  refine ⟨_, ?_, .quoted hstring hbefore hgaps⟩
  rw [hquote, hquoted, hafterName, hbehind]
  simp

theorem ReadsFramed.fields_succ (h : ReadsFramed fuel)
    (hread : readFields (fuel + 1) room cs = some (fields, rest)) :
    ∃ core, skip cs = core ++ rest ∧ FramedFields room core fields := by
  cases readFields_cases hread with
  | last hname hvalue hclose =>
      obtain ⟨core, hcore, hframed⟩ := h.value hvalue
      obtain ⟨front, hfront, hname⟩ := frame_name hname hcore
      obtain ⟨gaps, hgaps, htail⟩ := exists_gaps_of_skip hclose
      exact ⟨_, by rw [hfront, htail]; simp, framedFields_one hname hframed hgaps⟩
  | cons hname hvalue hcomma hfields =>
      obtain ⟨core, hcore, hframed⟩ := h.value hvalue
      obtain ⟨front, hfront, hname⟩ := frame_name hname hcore
      obtain ⟨later, hlater, hmore⟩ := h.fields hfields
      obtain ⟨gaps, hgaps, htail⟩ := exists_gaps_of_skip hcomma
      obtain ⟨gaps', hgaps', hrest⟩ := exists_gaps_of_skip hlater
      exact ⟨_, by rw [hfront, htail, hrest]; simp, framedFields_cons hname hframed hgaps hgaps' hmore⟩

theorem readsFramed (fuel : Nat) : ReadsFramed fuel := by
  induction fuel with
  | zero => exact ⟨nofun, nofun, nofun⟩
  | succ fuel ih => exact ⟨ih.value_succ, ih.items_succ, ih.fields_succ⟩

-- The text of a value that opens at most `room` levels, with nothing but gaps around it.
def IsText (room : Nat) (cs : List Char) (json : Json) : Prop :=
  ∃ rest, readValue (fuelFor cs) room cs = some (json, rest) ∧ skip rest = []

theorem parseChars?_eq_some : parseChars? cs = some json ↔ IsText maxDepth cs json := parseChars?_iff

theorem isText_iff : IsText room cs json ↔ ∃ before core behind, cs = before ++ (core ++ behind) ∧
    Gaps before ∧ Gaps behind ∧ Framed room core json := by
  constructor
  · rintro ⟨rest, hread, hrest⟩
    obtain ⟨core, hcore, hframed⟩ := (readsFramed _).value hread
    obtain ⟨before, hbefore, hcs⟩ := exists_gaps_of_skip hcore
    exact ⟨before, core, rest, hcs, hbefore, skip_eq_nil.1 hrest, hframed⟩
  · rintro ⟨before, core, behind, rfl, hbefore, hbehind, hframed⟩
    have hstops : Stops behind := List.append_nil behind ▸ stops_gaps hbehind (fun _ h => nomatch h)
    refine ⟨behind, ?_, skip_eq_nil.2 hbehind⟩
    rw [readValue_gaps hbefore]
    refine hframed.reads hstops ?_
    simp only [fuelFor, List.length_append]
    omega

end Values

end SceneLink.Json
