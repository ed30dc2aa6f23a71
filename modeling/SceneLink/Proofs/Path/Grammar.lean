import Mathlib.Data.List.Forall2
import SceneLink.Path.Basic
import SceneLink.Proofs.Dict
import SceneLink.Proofs.Text.Numeral
import SceneLink.Proofs.Text.Split

namespace SceneLink

namespace Path

section Marks

-- The marks at the end of a token, each at most once and in either order.
inductive Modifiers : List Char → Bool → Bool → Prop
  | none : Modifiers [] false false
  | conditional : Modifiers ['?'] true false
  | excited : Modifiers ['!'] false true
  | conditionalExcited : Modifiers ['?', '!'] true true
  | excitedConditional : Modifiers ['!', '?'] true true

-- A token and its body, which ends in no mark that could still be taken off.
structure Stripped (token body : List Char) (conditional excited : Bool) : Prop where
  marks : ∃ marks, Modifiers marks conditional excited ∧ token = body ++ marks
  unconditional : conditional = false → body.getLast? ≠ some '?'
  unexcited : excited = false → body.getLast? ≠ some '!'

private theorem dropFlag_self (flag : Char) (cs : List Char) : dropFlag flag (flag :: cs) = (true, cs) := by
  simp [dropFlag]

private theorem dropFlag_of_head?_ne {flag : Char} {cs : List Char} (h : cs.head? ≠ some flag) :
    dropFlag flag cs = (false, cs) := by
  cases cs with
  | nil => rfl
  | cons c cs =>
      have hc : c ≠ flag := fun heq => h (congrArg some heq)
      simp [dropFlag, hc]

variable {token body : List Char} {conditional excited : Bool}

theorem Stripped.splitModifiers_eq (h : Stripped token body conditional excited) :
    splitModifiers token = (body, conditional, excited) := by
  obtain ⟨⟨marks, hmarks, rfl⟩, hc, he⟩ := h
  rw [← List.head?_reverse] at hc he
  have hexcited (cs : List Char) : dropFlag '?' ('!' :: cs) = (false, '!' :: cs) :=
    dropFlag_of_head?_ne (by simp)
  unfold splitModifiers
  rw [List.reverse_append]
  cases hmarks with
  | none => simp [dropFlag_of_head?_ne (hc rfl), dropFlag_of_head?_ne (he rfl)]
  | conditional => simp [dropFlag_self, dropFlag_of_head?_ne (he rfl)]
  | excited => simp [hexcited, dropFlag_self, dropFlag_of_head?_ne (hc rfl)]
  | conditionalExcited => simp [hexcited, dropFlag_self]
  | excitedConditional => simp [dropFlag_self]

theorem exists_stripped (token : List Char) :
    ∃ body conditional excited, Stripped token body conditional excited := by
  by_cases hc : token.getLast? = some '?'
  · obtain ⟨rest, rfl⟩ := List.getLast?_eq_some_iff.1 hc
    by_cases he : rest.getLast? = some '!'
    · obtain ⟨body, rfl⟩ := List.getLast?_eq_some_iff.1 he
      exact ⟨body, true, true, ⟨_, .excitedConditional, by simp⟩, nofun, nofun⟩
    · exact ⟨rest, true, false, ⟨_, .conditional, rfl⟩, nofun, fun _ => he⟩
  · by_cases he : token.getLast? = some '!'
    · obtain ⟨rest, rfl⟩ := List.getLast?_eq_some_iff.1 he
      by_cases hc' : rest.getLast? = some '?'
      · obtain ⟨body, rfl⟩ := List.getLast?_eq_some_iff.1 hc'
        exact ⟨body, true, true, ⟨_, .conditionalExcited, by simp⟩, nofun, nofun⟩
      · exact ⟨rest, false, true, ⟨_, .excited, rfl⟩, fun _ => hc', nofun⟩
    · exact ⟨token, false, false, ⟨[], .none, by simp⟩, fun _ => hc, fun _ => he⟩

theorem Stripped.unique {other : List Char} {conditional' excited' : Bool}
    (h : Stripped token body conditional excited) (h' : Stripped token other conditional' excited') :
    other = body ∧ conditional' = conditional ∧ excited' = excited := by
  have heq := h'.splitModifiers_eq.symm.trans h.splitModifiers_eq
  simpa only [Prod.mk.injEq] using heq

end Marks

section Bodies

-- What a tag names: a kind by one of its names in any letter case, or else itself in lower case.
inductive Names (tag : List Char) : StepKind → Prop
  | known {name : String} {kind : StepKind} : (name, kind) ∈ StepKind.tags →
      tag.map Text.lowerAscii = name.toList → Names tag kind
  | other : (∀ entry ∈ StepKind.tags, tag.map Text.lowerAscii ≠ entry.1.toList) →
      Names tag (.unknown (String.ofList (tag.map Text.lowerAscii)))

-- The kind and the value of a body. The first colon ends the tag.
inductive Reads : List Char → StepKind → String → Prop
  | digits {body : List Char} : Text.Digits body → Reads body .index (String.ofList body)
  | name {body : List Char} : ':' ∉ body → ¬ Text.Digits body → Reads body .member (String.ofList body)
  | tagged {tag value : List Char} {kind : StepKind} : tag ≠ [] → ':' ∉ tag → Names tag kind →
      Reads (tag ++ ':' :: value) kind (String.ofList value)

private theorem tags_nodup : StepKind.tags.keys.Nodup := by decide

theorem names_iff {tag : List Char} {kind : StepKind} :
    Names tag kind ↔ StepKind.ofTag (String.ofList tag) = kind := by
  have hofTag : StepKind.ofTag (String.ofList tag) =
      (StepKind.tags.get? (String.ofList (tag.map Text.lowerAscii))).getD
        (.unknown (String.ofList (tag.map Text.lowerAscii))) := by
    simp only [StepKind.ofTag, String.toList_ofList]
  rw [hofTag]
  constructor
  · intro h
    cases h with
    | known hmem heq => rw [heq, String.ofList_toList, Dict.get?_of_mem tags_nodup hmem, Option.getD_some]
    | other hne =>
        have hnone : StepKind.tags.get? (String.ofList (tag.map Text.lowerAscii)) = none :=
          Dict.get?_eq_none_of_forall_ne fun entry hmem heq =>
            hne entry hmem (by rw [heq, String.toList_ofList])
        rw [hnone, Option.getD_none]
  · rintro rfl
    cases hget : StepKind.tags.get? (String.ofList (tag.map Text.lowerAscii)) with
    | some kind => exact .known (Dict.mem_of_get? hget) String.toList_ofList.symm
    | none =>
        refine .other fun entry hmem heq => ?_
        have hsome := Dict.get?_of_mem tags_nodup hmem
        rw [heq, String.ofList_toList, hsome] at hget
        cases hget

variable {body : List Char} {kind : StepKind} {value : String}

theorem Reads.splitTag_eq (h : Reads body kind value) (offset : Nat) :
    splitTag offset body = .ok (kind, value) := by
  unfold splitTag
  cases h with
  | digits hdigits =>
      have hcolon : ':' ∉ body := fun hmem => absurd (hdigits _ hmem) (by decide)
      rw [Text.splitOnce?_eq_none.2 hcolon]
      dsimp only
      rw [if_pos (List.all_eq_true.2 hdigits)]
  | name hcolon hdigits =>
      rw [Text.splitOnce?_eq_none.2 hcolon]
      dsimp only
      rw [if_neg fun hall => hdigits (List.all_eq_true.1 hall)]
  | @tagged tag value kind hne hcolon hnames =>
      rw [Text.splitOnce?_eq_some.2 ⟨rfl, hcolon⟩]
      cases tag with
      | nil => exact absurd rfl hne
      | cons c cs =>
          dsimp only
          rw [names_iff.1 hnames]

theorem exists_reads (h : body.head? ≠ some ':') : ∃ kind value, Reads body kind value := by
  by_cases hcolon : ':' ∈ body
  · cases hs : Text.splitOnce? ':' body with
    | none => exact absurd hcolon (Text.splitOnce?_eq_none.1 hs)
    | some parts =>
        obtain ⟨tag, value⟩ := parts
        obtain ⟨rfl, hfirst⟩ := Text.splitOnce?_eq_some.1 hs
        have htag : tag ≠ [] := by
          rintro rfl
          exact h rfl
        exact ⟨_, _, .tagged htag hfirst (names_iff.2 rfl)⟩
  · by_cases hdigits : Text.Digits body
    · exact ⟨_, _, .digits hdigits⟩
    · exact ⟨_, _, .name hcolon hdigits⟩

end Bodies

section Payloads

-- Digits with a plus in front if one likes, up to the largest position.
def IsPosition (value : String) : Prop :=
  ∃ digits, (value.toList = digits ∨ value.toList = '+' :: digits) ∧ digits ≠ [] ∧ Text.Digits digits ∧
    Text.ofDigits digits ≤ Text.maxIndex

-- The texts that a literal of each type is read from.
inductive Spells : Literal → String → Prop
  | string {raw : String} : Spells .string raw
  | null {raw : String} : Spells .null raw
  | boolean {raw word : String} : word ∈ ["true", "false"] →
      (Text.trim raw.toList).map Text.lowerAscii = word.toList → Spells .boolean raw
  | integer {raw : String} {sign digits : List Char} : Text.trim raw.toList = sign ++ digits →
      sign ∈ [[], ['+'], ['-']] → digits ≠ [] → Text.Digits digits →
      Text.ofDigits digits < 2 ^ 63 ∨ (sign = ['-'] ∧ Text.ofDigits digits = 2 ^ 63) →
      Spells .integer raw
  | float {raw : String} {x : Double.Finite} : Literal.readDouble? raw = some (.finite x) →
      Spells .float raw
  | json {raw : String} {json : Json} : Json.parse? raw = some json → Spells .json raw

-- A position, a literal of its type, or the value of any other step.
inductive Fits : StepKind → String → Prop
  | index {value : String} : IsPosition value → Fits .index value
  | literal {type : Literal} {value : String} : Spells type value → Fits (.literal type) value
  | other {kind : StepKind} {value : String} : kind ≠ .index → (∀ type, kind ≠ .literal type) →
      Fits kind value

private theorem index?_iff (step : Step) : (∃ n, step.index? = some n) ↔ IsPosition step.value := by
  unfold Step.index? Text.index?
  constructor
  · rintro ⟨n, hn⟩
    obtain ⟨hread, hmax⟩ := Option.filter_eq_some_iff.1 hn
    obtain ⟨hne, hdigits, rfl⟩ := Text.allDigits?_eq_some.1 hread
    refine ⟨_, ?_, hne, hdigits, of_decide_eq_true hmax⟩
    split
    · next rest heq => exact .inr heq
    · exact .inl rfl
  · rintro ⟨digits, hvalue, hne, hdigits, hmax⟩
    refine ⟨Text.ofDigits digits,
      Option.filter_eq_some_iff.2 ⟨Text.allDigits?_eq_some.2 ?_, decide_eq_true hmax⟩⟩
    rcases hvalue with hvalue | hvalue
    · rw [hvalue]
      split
      · exact absurd (hdigits '+' List.mem_cons_self) (by decide)
      · exact ⟨hne, hdigits, rfl⟩
    · rw [hvalue]
      exact ⟨hne, hdigits, rfl⟩

private theorem readBool?_iff {raw : String} : (∃ b, Literal.readBool? raw = some b) ↔ Spells .boolean raw := by
  have hword (word : String) : String.ofList ((Text.trim raw.toList).map Text.lowerAscii) = word ↔
      (Text.trim raw.toList).map Text.lowerAscii = word.toList :=
    ⟨fun h => by rw [← h, String.toList_ofList], fun h => by rw [h, String.ofList_toList]⟩
  unfold Literal.readBool?
  dsimp only
  constructor
  · rintro ⟨b, hb⟩
    split at hb
    · next htrue => exact .boolean (by simp) ((hword _).1 htrue)
    · split at hb
      · next hfalse => exact .boolean (by simp) ((hword _).1 hfalse)
      · cases hb
  · intro h
    cases h with
    | @boolean _ word hmem heq =>
        rw [(hword word).2 heq]
        simp only [List.mem_cons, List.not_mem_nil, or_false] at hmem
        rcases hmem with rfl | rfl
        · exact ⟨true, if_pos rfl⟩
        · exact ⟨false, rfl⟩

private theorem readInt?_iff {raw : String} : (∃ n, Literal.readInt? raw = some n) ↔ Spells .integer raw := by
  unfold Literal.readInt? Text.integer?
  constructor
  · rintro ⟨n, hn⟩
    obtain ⟨sign, hsign, digits, hraw, hsplit⟩ := Text.splitSign_spec (Text.trim raw.toList)
    rw [hsplit] at hn
    obtain ⟨m, hread, hrange⟩ := Option.bind_eq_some_iff.1 hn
    obtain ⟨hne, hdigits, rfl⟩ := Text.allDigits?_eq_some.1 hread
    refine .integer hraw hsign hne hdigits ?_
    by_cases hlt : Text.ofDigits digits < 2 ^ 63
    · exact .inl hlt
    · by_cases hminus : sign = ['-']
      · by_cases hle : Text.ofDigits digits ≤ 2 ^ 63
        · exact .inr ⟨hminus, by omega⟩
        · simp only [hminus, decide_true, if_true, if_neg hle] at hrange
          cases hrange
      · simp only [hminus, decide_false, Bool.false_eq_true, if_false, if_neg hlt] at hrange
        cases hrange
  · intro h
    cases h with
    | @integer _ sign digits hraw hsign hne hdigits hrange =>
        rw [hraw, Text.splitSign_append hsign (Text.noSign_of_digits hdigits)]
        dsimp only
        rw [Text.allDigits?_eq_some.2 ⟨hne, hdigits, rfl⟩, Option.bind_some]
        by_cases hminus : sign = ['-']
        · have hle : Text.ofDigits digits ≤ 2 ^ 63 := by omega
          exact ⟨-(Text.ofDigits digits : Int), by simp only [hminus, decide_true, if_true, if_pos hle]⟩
        · have hlt : Text.ofDigits digits < 2 ^ 63 := hrange.resolve_right fun h => hminus h.1
          exact ⟨Text.ofDigits digits,
            by simp only [hminus, decide_false, Bool.false_eq_true, if_false, if_pos hlt]⟩

theorem read?_iff (type : Literal) (raw : String) : (∃ json, type.read? raw = some json) ↔ Spells type raw := by
  unfold Literal.read?
  cases type with
  | string => exact ⟨fun _ => .string, fun _ => ⟨_, rfl⟩⟩
  | null => exact ⟨fun _ => .null, fun _ => ⟨_, rfl⟩⟩
  | boolean =>
      rw [← readBool?_iff]
      cases Literal.readBool? raw <;> simp
  | integer =>
      rw [← readInt?_iff]
      cases Literal.readInt? raw <;> simp
  | json => exact ⟨fun ⟨_, h⟩ => .json h, fun h => by cases h with | json h => exact ⟨_, h⟩⟩
  | float =>
      constructor
      · rintro ⟨json, h⟩
        dsimp only at h
        split at h
        · next x hx => exact .float hx
        · cases h
      · intro h
        cases h with
        | float hx =>
            dsimp only
            rw [hx]
            exact ⟨_, rfl⟩

-- What is reported of a value that does not fit its kind.
inductive Misfit (offset : Nat) (value : String) : StepKind → ParseError → Prop
  | index : ¬ IsPosition value → Misfit offset value .index (.invalidIndex offset value)
  | literal {type : Literal} : ¬ Spells type value →
      Misfit offset value (.literal type) (.invalidLiteral offset type value)

theorem check_excited {step : Step} (offset : Nat) (h : step.excited = true) :
    check offset step = .ok () := by
  unfold check
  rw [if_pos h]

theorem Fits.index? {step : Step} (h : Fits step.kind step.value) (hkind : step.kind = .index) :
    ∃ n, step.index? = some n := by
  rw [hkind] at h
  cases h with
  | index hposition => exact (index?_iff step).2 hposition
  | other hne _ => exact absurd rfl hne

theorem Fits.read? {step : Step} {type : Literal} (h : Fits step.kind step.value)
    (hkind : step.kind = .literal type) : ∃ json, type.read? step.value = some json := by
  rw [hkind] at h
  cases h with
  | literal hspells => exact (read?_iff type step.value).2 hspells
  | other _ hne => exact absurd rfl (hne type)

theorem check_fits {step : Step} (offset : Nat) (h : Fits step.kind step.value) :
    check offset step = .ok () := by
  unfold check
  split
  · rfl
  · split
    · next hkind =>
      obtain ⟨n, hn⟩ := h.index? hkind
      rw [hn]
    · next type hkind =>
      obtain ⟨json, hjson⟩ := h.read? hkind
      rw [hjson]
    · rfl

theorem check_misfit {step : Step} (offset : Nat) (hverbatim : step.excited = false)
    (h : ¬ Fits step.kind step.value) :
    ∃ e, check offset step = .error e ∧ Misfit offset step.value step.kind e := by
  unfold check
  rw [if_neg (by simp [hverbatim])]
  split
  · next hkind =>
    rw [hkind] at h ⊢
    have hposition : ¬ IsPosition step.value := fun hposition => h (.index hposition)
    cases hread : step.index? with
    | some n => exact absurd ((index?_iff step).1 ⟨n, hread⟩) hposition
    | none => exact ⟨_, rfl, .index hposition⟩
  · next type hkind =>
    rw [hkind] at h ⊢
    have hspells : ¬ Spells type step.value := fun hspells => h (.literal hspells)
    cases hread : type.read? step.value with
    | some json => exact absurd ((read?_iff type step.value).1 ⟨json, hread⟩) hspells
    | none => exact ⟨_, rfl, .literal hspells⟩
  · next hindex hliteral => exact absurd (.other hindex hliteral) h

end Payloads

section Tokens

-- A token that is a step: something is left without the marks, it has no empty tag, and its value
-- fits unless it is yet to be evaluated.
def WellFormed (token : List Char) : Prop :=
  ∃ body conditional excited, Stripped token body conditional excited ∧
    body ≠ [] ∧ body.head? ≠ some ':' ∧
    (excited = false → ∀ kind value, Reads body kind value → Fits kind value)

def Denotes (token : List Char) (step : Step) : Prop :=
  ∃ body, Stripped token body step.conditional step.excited ∧ Reads body step.kind step.value

inductive Blames (token : List Char) (offset : Nat) : ParseError → Prop
  | emptyStep {conditional excited : Bool} : Stripped token [] conditional excited →
      Blames token offset (.emptyStep offset)
  | emptyTag {rest : List Char} {conditional excited : Bool} :
      Stripped token (':' :: rest) conditional excited → Blames token offset (.emptyTag offset)
  | misfit {body : List Char} {conditional : Bool} {kind : StepKind} {value : String} {e : ParseError} :
      Stripped token body conditional false → Reads body kind value → Misfit offset value kind e →
      Blames token offset e

variable {token body : List Char} {conditional excited : Bool}

theorem Stripped.parseStep_eq (h : Stripped token body conditional excited) (hne : body ≠ []) (offset : Nat) :
    parseStep offset token = (do
      let (kind, value) ← splitTag offset body
      check offset { kind, value, conditional, excited }
      return { kind, value, conditional, excited }) := by
  unfold parseStep
  rw [h.splitModifiers_eq]
  dsimp only
  rw [if_neg hne]

theorem parseStep_of_reads {kind : StepKind} {value : String} (h : Stripped token body conditional excited)
    (hne : body ≠ []) (hreads : Reads body kind value) (offset : Nat) :
    parseStep offset token =
      (check offset { kind, value, conditional, excited }).map
        fun _ => { kind, value, conditional, excited } := by
  rw [h.parseStep_eq hne, hreads.splitTag_eq]
  change (check offset _ >>= fun _ => .ok _) = _
  cases check offset { kind, value, conditional, excited } <;> rfl

-- A token is read as the step that it denotes, or else is blamed.
theorem parseStep_wellFormed (h : WellFormed token) (offset : Nat) :
    ∃ step, parseStep offset token = .ok step ∧ Denotes token step := by
  obtain ⟨body, conditional, excited, hstripped, hne, hcolon, hfits⟩ := h
  obtain ⟨kind, value, hreads⟩ := exists_reads hcolon
  have hcheck : check offset { kind, value, conditional, excited } = .ok () := by
    cases excited with
    | true => exact check_excited offset rfl
    | false => exact check_fits offset (hfits rfl kind value hreads)
  refine ⟨{ kind, value, conditional, excited }, ?_, body, hstripped, hreads⟩
  rw [parseStep_of_reads hstripped hne hreads, hcheck]
  rfl

theorem Reads.unique {kind kind' : StepKind} {value value' : String} (h : Reads body kind value)
    (h' : Reads body kind' value') : kind' = kind ∧ value' = value := by
  have heq := (h'.splitTag_eq 0).symm.trans (h.splitTag_eq 0)
  simpa only [Except.ok.injEq, Prod.mk.injEq] using heq

theorem parseStep_illFormed (h : ¬ WellFormed token) (offset : Nat) :
    ∃ e, parseStep offset token = .error e ∧ Blames token offset e := by
  obtain ⟨body, conditional, excited, hstripped⟩ := exists_stripped token
  by_cases hne : body = []
  · subst hne
    refine ⟨.emptyStep offset, ?_, .emptyStep hstripped⟩
    unfold parseStep
    rw [hstripped.splitModifiers_eq]
    rfl
  by_cases hcolon : body.head? = some ':'
  · obtain ⟨rest, rfl⟩ := List.head?_eq_some_iff.1 hcolon
    refine ⟨.emptyTag offset, ?_, .emptyTag hstripped⟩
    rw [hstripped.parseStep_eq hne]
    rfl
  obtain ⟨kind, value, hreads⟩ := exists_reads hcolon
  have hfits : excited = false ∧ ¬ Fits kind value := by
    refine ⟨?_, fun hfits => h ⟨body, conditional, excited, hstripped, hne, hcolon, ?_⟩⟩
    · cases excited with
      | false => rfl
      | true => exact absurd ⟨body, conditional, true, hstripped, hne, hcolon, nofun⟩ h
    · intro _ kind' value' hreads'
      obtain ⟨rfl, rfl⟩ := hreads.unique hreads'
      exact hfits
  obtain ⟨rfl, hmisfit⟩ := hfits
  let step : Step := { kind, value, conditional, excited := false }
  obtain ⟨e, hcheck, hblames⟩ : ∃ e, check offset step = .error e ∧ Misfit offset value kind e :=
    check_misfit offset rfl hmisfit
  refine ⟨e, ?_, .misfit hstripped hreads hblames⟩
  rw [parseStep_of_reads hstripped hne hreads, hcheck]
  rfl

theorem parseSteps_spec (offset : Nat) (tokens : List (List Char)) :
    (∃ steps, parseSteps offset tokens = .ok steps ∧ (∀ token ∈ tokens, WellFormed token) ∧
      List.Forall₂ Denotes tokens steps) ∨
    (∃ e before token after, parseSteps offset tokens = .error e ∧ tokens = before ++ token :: after ∧
      (∀ earlier ∈ before, WellFormed earlier) ∧ ¬ WellFormed token ∧
      Blames token (offset + Text.byteLength (before.flatMap (· ++ ['/']))) e) := by
  induction tokens generalizing offset with
  | nil => exact .inl ⟨[], rfl, nofun, .nil⟩
  | cons token tokens ih =>
      unfold parseSteps
      by_cases htoken : WellFormed token
      · obtain ⟨step, hstep, hdenotes⟩ := parseStep_wellFormed htoken offset
        rw [hstep]
        rcases ih (offset + Text.byteLength token + 1) with
          ⟨steps, hsteps, hall, hrest⟩ | ⟨e, before, bad, after, hsteps, rfl, hall, hbad, hblames⟩
        · refine .inl ⟨step :: steps, ?_, List.forall_mem_cons.2 ⟨htoken, hall⟩, .cons hdenotes hrest⟩
          rw [hsteps]
          rfl
        · refine .inr ⟨e, token :: before, bad, after, ?_, rfl,
            List.forall_mem_cons.2 ⟨htoken, hall⟩, hbad, ?_⟩
          · rw [hsteps]
            rfl
          · have hlength : Text.byteLength ((token :: before).flatMap (· ++ ['/'])) =
                Text.byteLength token + 1 + Text.byteLength (before.flatMap (· ++ ['/'])) := by
              rw [List.flatMap_cons, Text.byteLength_append, Text.byteLength_append]
              rfl
            rw [hlength, ← Nat.add_assoc, ← Nat.add_assoc]
            exact hblames
      · obtain ⟨e, he, hblames⟩ := parseStep_illFormed htoken offset
        refine .inr ⟨e, [], token, tokens, ?_, rfl, nofun, htoken, hblames⟩
        rw [he]
        rfl

theorem Denotes.unique {step step' : Step} (h : Denotes token step) (h' : Denotes token step') :
    step' = step := by
  obtain ⟨body, hstripped, hreads⟩ := h
  obtain ⟨other, hstripped', hreads'⟩ := h'
  obtain ⟨rfl, hconditional, hexcited⟩ := hstripped.unique hstripped'
  obtain ⟨hkind, hvalue⟩ := hreads.unique hreads'
  cases step
  cases step'
  cases hconditional
  cases hexcited
  cases hkind
  cases hvalue
  rfl

theorem parseSteps_eq_ok (offset : Nat) {tokens : List (List Char)} {steps : List Step} :
    parseSteps offset tokens = .ok steps ↔
      (∀ token ∈ tokens, WellFormed token) ∧ List.Forall₂ Denotes tokens steps := by
  rcases parseSteps_spec offset tokens with
    ⟨found, hfound, hall, hdenotes⟩ | ⟨e, before, bad, after, herror, rfl, -, hbad, -⟩
  · rw [hfound]
    constructor
    · intro heq
      cases heq
      exact ⟨hall, hdenotes⟩
    · rintro ⟨-, hsteps⟩
      rw [List.right_unique_forall₂' (fun _ _ _ h h' => h'.unique h) hsteps hdenotes]
  · rw [herror]
    exact ⟨nofun, fun h => absurd (h.1 bad (by simp)) hbad⟩

theorem parse_eq_ok {text : String} {path : Path} (hne : text ≠ "") :
    parse text = .ok path ↔ path.text = text ∧
      (∀ token ∈ text.toList.splitOn '/', WellFormed token) ∧
      List.Forall₂ Denotes (text.toList.splitOn '/') path.steps := by
  have hparse : parse text = (parseSteps 0 (text.toList.splitOn '/')).map fun steps => ⟨text, steps⟩ :=
    if_neg hne
  rw [hparse, ← parseSteps_eq_ok 0]
  cases parseSteps 0 (text.toList.splitOn '/') with
  | error e => exact ⟨nofun, fun h => nomatch h.2⟩
  | ok steps =>
      constructor
      · intro heq
        cases heq
        exact ⟨rfl, rfl⟩
      · rintro ⟨htext, hsteps⟩
        cases path
        cases htext
        cases hsteps
        rfl

theorem fits_of_denotes (hformed : WellFormed token) {step : Step} (hdenotes : Denotes token step)
    (hverbatim : step.excited = false) : Fits step.kind step.value := by
  obtain ⟨body, hstripped, hreads⟩ := hdenotes
  obtain ⟨other, conditional, excited, hother, -, -, hfits⟩ := hformed
  obtain ⟨rfl, rfl, rfl⟩ := hstripped.unique hother
  exact hfits hverbatim _ _ hreads

-- The values of a path that was read fit the kinds of their steps, unless they are yet to be evaluated.
theorem fits_of_parse {text : String} {path : Path} (hparse : parse text = .ok path) {step : Step}
    (hstep : step ∈ path.steps) (hverbatim : step.excited = false) : Fits step.kind step.value := by
  unfold parse at hparse
  split at hparse
  · cases hparse
    cases hstep
  · rcases parseSteps_spec 0 (text.toList.splitOn '/') with
      ⟨steps, hsteps, hall, hdenotes⟩ | ⟨e, -, -, -, hsteps, -⟩
    · rw [hsteps] at hparse
      cases hparse
      obtain ⟨i, hi, rfl⟩ := List.getElem_of_mem hstep
      have htoken : i < (text.toList.splitOn '/').length := hdenotes.length_eq ▸ hi
      exact fits_of_denotes (hall _ (List.getElem_mem htoken)) (hdenotes.get htoken hi) hverbatim
    · rw [hsteps] at hparse
      cases hparse

end Tokens

-- The parser reads the language of this grammar. It accepts the empty text, which has no steps, and the
-- texts whose pieces are all well formed, with the step that each piece denotes; of the others it
-- reports the first piece that is not, with the number of bytes before it.
theorem parse_grammar (text : String) :
    let tokens := text.toList.splitOn '/'
    Text.Cut '/' text.toList tokens ∧
    ((∃ path, parse text = .ok path) ↔ text = "" ∨ ∀ token ∈ tokens, WellFormed token) ∧
    (∀ path, parse text = .ok path → path.text = text ∧
      (text = "" → path.steps = []) ∧ (text ≠ "" → List.Forall₂ Denotes tokens path.steps)) ∧
    (∀ e, parse text = .error e → ∃ before token after, tokens = before ++ token :: after ∧
      text.toList = before.flatMap (· ++ ['/']) ++ token ++ after.flatMap ('/' :: ·) ∧
      (∀ earlier ∈ before, WellFormed earlier) ∧ ¬ WellFormed token ∧
      Blames token (String.ofList (before.flatMap (· ++ ['/']))).utf8ByteSize e) := by
  intro tokens
  have hcut : Text.Cut '/' text.toList tokens := Text.splitOn_cut '/' text.toList
  refine ⟨hcut, ?_⟩
  by_cases hempty : text = ""
  · have hparse : parse text = .ok here := if_pos hempty
    rw [hparse]
    refine ⟨⟨fun _ => .inl hempty, fun _ => ⟨here, rfl⟩⟩, ?_, nofun⟩
    intro path hpath
    cases hpath
    exact ⟨hempty.symm, fun _ => rfl, fun hne => absurd hempty hne⟩
  · have hparse : parse text = (parseSteps 0 tokens).map fun steps => ⟨text, steps⟩ := if_neg hempty
    rw [hparse]
    rcases parseSteps_spec 0 tokens with
      ⟨steps, hsteps, hall, hdenotes⟩ | ⟨e, before, token, after, hsteps, htokens, hall, htoken, hblames⟩
    · rw [hsteps]
      refine ⟨⟨fun _ => .inr hall, fun _ => ⟨_, rfl⟩⟩, ?_, nofun⟩
      intro path hpath
      cases hpath
      exact ⟨rfl, fun h => absurd h hempty, fun _ => hdenotes⟩
    · rw [hsteps]
      refine ⟨⟨nofun, ?_⟩, nofun, ?_⟩
      · rintro (h | h)
        · exact absurd h hempty
        · exact absurd (h token (by simp [htokens])) htoken
      · intro e' he'
        cases he'
        refine ⟨before, token, after, htokens, ?_, hall, htoken, ?_⟩
        · rw [← Text.intercalate_append_cons, ← htokens, hcut.joined]
        · rw [← Text.byteLength_eq]
          rwa [Nat.zero_add] at hblames

end Path

end SceneLink
