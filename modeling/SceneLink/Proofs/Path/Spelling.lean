import SceneLink.Proofs.Path.Grammar

namespace SceneLink

namespace Text

variable {c d : Char} {cs : List Char}

private theorem toNat_lowerAscii (c : Char) :
    (lowerAscii c).toNat = if 65 ≤ c.toNat ∧ c.toNat ≤ 90 then c.toNat + 32 else c.toNat := by
  have hcapital : ('A' ≤ c ∧ c ≤ 'Z') ↔ (65 ≤ c.toNat ∧ c.toNat ≤ 90) := Iff.rfl
  unfold lowerAscii
  by_cases h : 65 ≤ c.toNat ∧ c.toNat ≤ 90
  · have hvalid : (c.toNat + 32).isValidChar := .inl (by omega)
    rw [if_pos (hcapital.2 h), if_pos h, Char.ofNat, dif_pos hvalid]
    rfl
  · rw [if_neg (mt hcapital.1 h), if_neg h]

private theorem lowerAscii_lowerAscii (c : Char) : lowerAscii (lowerAscii c) = lowerAscii c := by
  apply Char.toNat_inj.1
  rw [toNat_lowerAscii (lowerAscii c), if_neg]
  rw [toNat_lowerAscii]
  split <;> omega

private theorem map_lowerAscii_twice (cs : List Char) :
    (cs.map lowerAscii).map lowerAscii = cs.map lowerAscii := by
  rw [List.map_map]
  exact List.map_congr_left fun c _ => lowerAscii_lowerAscii c

-- What stands before the letters is no letter in either case.
theorem lowerAscii_eq_iff (hd : d.toNat < 65) : lowerAscii c = d ↔ c = d := by
  rw [← Char.toNat_inj, ← Char.toNat_inj, toNat_lowerAscii]
  split <;> omega

private theorem mem_map_lowerAscii (hd : d.toNat < 65) : d ∈ cs.map lowerAscii ↔ d ∈ cs := by
  simp only [List.mem_map, lowerAscii_eq_iff hd, exists_eq_right]

end Text

namespace Path

section Tags

variable {tag other : List Char} {kind : StepKind} {name : String}

-- A tag that stays in one piece: it holds neither of the separators.
def IsTag (tag : List Char) : Prop := tag ≠ [] ∧ ':' ∉ tag ∧ '/' ∉ tag

instance (tag : List Char) : Decidable (IsTag tag) := inferInstanceAs (Decidable (_ ∧ _))

theorem isTag_lowered : IsTag (tag.map Text.lowerAscii) ↔ IsTag tag := by
  unfold IsTag
  rw [Text.mem_map_lowerAscii (by decide), Text.mem_map_lowerAscii (by decide), ne_eq, ne_eq, List.map_eq_nil_iff]

theorem names_of_tags : ∀ entry ∈ StepKind.tags, IsTag entry.1.toList ∧
    entry.1.toList.map Text.lowerAscii = entry.1.toList ∧ entry.2.isUnknown = false ∧
    (entry.2.name, entry.2) ∈ StepKind.tags := by decide +kernel

theorem Names.isTag_of_mem (h : Names tag kind) (hkind : (name, kind) ∈ StepKind.tags) : IsTag tag := by
  cases h with
  | known hmem heq => exact isTag_lowered.1 (heq ▸ (names_of_tags _ hmem).1)
  | other hne => exact nomatch (names_of_tags _ hkind).2.2.1

theorem Names.isTag (h : Names tag kind) (htag : IsTag tag) (hother : Names other kind) : IsTag other := by
  cases h with
  | known hmem heq => exact hother.isTag_of_mem hmem
  | other hne =>
      generalize hkind : StepKind.unknown (String.ofList (tag.map Text.lowerAscii)) = kind at hother
      cases hother with
      | known hmem heq => exact isTag_lowered.1 (heq ▸ (names_of_tags _ hmem).1)
      | other hne' =>
          have hlowered : tag.map Text.lowerAscii = other.map Text.lowerAscii :=
            String.ofList_injective (StepKind.unknown.inj hkind)
          exact isTag_lowered.1 (hlowered ▸ isTag_lowered.2 htag)

theorem names_of_mem (hmem : (name, kind) ∈ StepKind.tags) : Names name.toList kind :=
  .known hmem (names_of_tags _ hmem).2.1

theorem Names.canonical (h : Names tag kind) : Names kind.name.toList kind := by
  cases h with
  | known hmem heq => exact names_of_mem (names_of_tags _ hmem).2.2.2
  | other hne =>
      have hname : (StepKind.unknown (String.ofList (tag.map Text.lowerAscii))).name.toList =
          tag.map Text.lowerAscii := String.toList_ofList
      have hlowered := Text.map_lowerAscii_twice tag
      rw [hname]
      have hnames : Names (tag.map Text.lowerAscii)
          (.unknown (String.ofList ((tag.map Text.lowerAscii).map Text.lowerAscii))) :=
        .other fun entry hentry => by
          rw [hlowered]
          exact hne entry hentry
      rwa [hlowered] at hnames

end Tags

section Steps

variable {token body tag : List Char} {step : Step}

def WrittenAs (step : Step) (token : List Char) : Prop :=
  ∃ tag marks, Names tag step.kind ∧ Modifiers marks step.conditional step.excited ∧
    token = tag ++ ':' :: (step.value.toList ++ marks)

-- What reading a step establishes, so that it can be written again: its kind has a name, and its value holds no
-- separator and ends in no mark that would still be taken off.
structure Regular (step : Step) : Prop where
  named : ∃ tag, IsTag tag ∧ Names tag step.kind
  slash : '/' ∉ step.value.toList
  unconditional : step.conditional = false → step.value.toList.getLast? ≠ some '?'
  unexcited : step.excited = false → step.value.toList.getLast? ≠ some '!'
  fits : step.excited = false → Fits step.kind step.value

structure PieceOf (token : List Char) (step : Step) : Prop where
  formed : WellFormed token
  denotes : Denotes token step
  slash : '/' ∉ token

theorem isTag_of_tagged {value : List Char} (hne : tag ≠ []) (hcolon : ':' ∉ tag)
    (hslash : '/' ∉ tag ++ ':' :: value) : IsTag tag :=
  ⟨hne, hcolon, fun hmem => hslash (List.mem_append_left _ hmem)⟩

-- The value of a body is the end of the body.
theorem Reads.getLast? {kind : StepKind} {value : String} (h : Reads body kind value) {c : Char}
    (hc : value.toList.getLast? = some c) : body.getLast? = some c := by
  cases h with
  | digits | name =>
      rw [String.toList_ofList] at hc
      exact hc
  | @tagged tag value kind =>
      rw [String.toList_ofList] at hc
      have hne : value ≠ [] := by
        rintro rfl
        cases hc
      rw [List.getLast?_append_of_ne_nil _ (List.cons_ne_nil _ _), List.getLast?_cons_of_ne_nil hne, hc]

theorem Reads.mem {kind : StepKind} {value : String} (h : Reads body kind value) {c : Char}
    (hc : c ∈ value.toList) : c ∈ body := by
  cases h with
  | digits | name =>
      rw [String.toList_ofList] at hc
      exact hc
  | tagged =>
      rw [String.toList_ofList] at hc
      exact List.mem_append_right _ (List.mem_cons_of_mem _ hc)

theorem PieceOf.regular (h : PieceOf token step) : Regular step := by
  obtain ⟨hformed, ⟨body, hstripped, hreads⟩, hslash⟩ := h
  obtain ⟨marks, -, rfl⟩ := hstripped.marks
  have hbody : '/' ∉ body := fun hmem => hslash (List.mem_append_left _ hmem)
  refine ⟨?_, fun hmem => hbody (hreads.mem hmem), fun hfalse hlast => ?_, fun hfalse hlast => ?_,
    fits_of_denotes hformed ⟨body, hstripped, hreads⟩⟩
  · generalize step.kind = kind at hreads ⊢
    generalize step.value = value at hreads
    cases hreads with
    | digits => exact ⟨"index".toList, by decide, names_of_mem (by decide)⟩
    | name => exact ⟨"member".toList, by decide, names_of_mem (by decide)⟩
    | tagged hne hcolon hnames => exact ⟨_, isTag_of_tagged hne hcolon hbody, hnames⟩
  · exact hstripped.unconditional hfalse (hreads.getLast? hlast)
  · exact hstripped.unexcited hfalse (hreads.getLast? hlast)

private theorem getLast?_tagged {value : List Char} {c : Char} (hc : c ≠ ':') (hvalue : value.getLast? ≠ some c) :
    (tag ++ ':' :: value).getLast? ≠ some c := by
  rw [List.getLast?_append_of_ne_nil _ (List.cons_ne_nil _ _)]
  cases value with
  | nil => exact fun heq => hc (Option.some.inj heq).symm
  | cons v vs => rwa [List.getLast?_cons_of_ne_nil (List.cons_ne_nil _ _)]

theorem Modifiers.slash {marks : List Char} {conditional excited : Bool} (h : Modifiers marks conditional excited) :
    '/' ∉ marks := by
  cases h <;> decide

theorem Regular.pieceOf (h : Regular step) (hwritten : WrittenAs step token) : PieceOf token step := by
  obtain ⟨tag, marks, hnames, hmarks, rfl⟩ := hwritten
  obtain ⟨first, hfirst, hkind⟩ := h.named
  have htag : IsTag tag := hkind.isTag hfirst hnames
  obtain ⟨hne, hcolon, hslash⟩ := htag
  have hstripped : Stripped (tag ++ ':' :: (step.value.toList ++ marks)) (tag ++ ':' :: step.value.toList)
      step.conditional step.excited :=
    ⟨⟨marks, hmarks, by simp⟩, fun hfalse => getLast?_tagged (by decide) (h.unconditional hfalse),
      fun hfalse => getLast?_tagged (by decide) (h.unexcited hfalse)⟩
  have hreads : Reads (tag ++ ':' :: step.value.toList) step.kind step.value := by
    have htagged : Reads (tag ++ ':' :: step.value.toList) step.kind (String.ofList step.value.toList) :=
      .tagged hne hcolon hnames
    rwa [String.ofList_toList] at htagged
  refine ⟨⟨_, _, _, hstripped, by simp, fun hhead => ?_, fun hfalse kind value hreads' => ?_⟩,
    ⟨_, hstripped, hreads⟩, ?_⟩
  · rw [List.head?_append_of_ne_nil _ hne] at hhead
    exact hcolon (List.mem_of_mem_head? hhead)
  · obtain ⟨rfl, rfl⟩ := hreads.unique hreads'
    exact h.fits hfalse
  · simp [hslash, h.slash, hmarks.slash]

end Steps

section Paths

variable {text : String} {path other : Path} {tokens : List (List Char)} {steps : List Step}

def join (tokens : List (List Char)) : String := String.ofList (['/'].intercalate tokens)

-- A text that is read as a path equal to the given one.
def Rereads (text : String) (path : Path) : Prop := ∃ other, parse text = .ok other ∧ (other == path) = true

theorem beq_iff : (other == path) = true ↔ other.steps = path.steps := by
  change (other.steps == path.steps) = true ↔ _
  exact beq_iff_eq

theorem not_wellFormed_nil : ¬WellFormed [] := by
  rintro ⟨body, conditional, excited, hstripped, hne, -⟩
  obtain ⟨marks, -, hnil⟩ := hstripped.marks
  exact hne (List.append_eq_nil_iff.1 hnil.symm).1

theorem formed_of_pieces (h : List.Forall₂ PieceOf tokens steps) :
    ∀ token ∈ tokens, WellFormed token ∧ '/' ∉ token := by
  intro token htoken
  obtain ⟨i, hi, rfl⟩ := List.getElem_of_mem htoken
  have hpiece := h.get hi (h.length_eq ▸ hi)
  exact ⟨hpiece.formed, hpiece.slash⟩

theorem parse_of_pieces (hcut : Text.Cut '/' text.toList tokens) (h : List.Forall₂ PieceOf tokens steps) :
    parse text = .ok ⟨text, steps⟩ := by
  have hne : text ≠ "" := by
    rintro rfl
    have htokens : [[]] = tokens := hcut.splitOn_eq
    exact not_wellFormed_nil (formed_of_pieces h [] (by simp [← htokens])).1
  rw [parse_eq_ok hne, hcut.splitOn_eq]
  exact ⟨rfl, fun token htoken => (formed_of_pieces h token htoken).1, h.imp fun _ _ hpiece => hpiece.denotes⟩

theorem rereads_of_pieces (h : List.Forall₂ PieceOf tokens path.steps) : Rereads (join tokens) path := by
  by_cases hnil : tokens = []
  · subst hnil
    have hsteps : path.steps = [] := List.forall₂_nil_left_iff.1 h
    exact ⟨here, rfl, beq_iff.2 hsteps.symm⟩
  · have hcut : Text.Cut '/' (join tokens).toList tokens :=
      ⟨hnil, fun token htoken => (formed_of_pieces h token htoken).2, String.toList_ofList.symm⟩
    exact ⟨_, parse_of_pieces hcut h, beq_iff.2 rfl⟩

theorem pieces_of_parse (hne : text ≠ "") (hparse : parse text = .ok path) :
    List.Forall₂ PieceOf (text.toList.splitOn '/') path.steps := by
  obtain ⟨-, hformed, hdenotes⟩ := (parse_eq_ok hne).1 hparse
  rw [List.forall₂_iff_get] at hdenotes ⊢
  refine ⟨hdenotes.1, fun i hi hi' => ⟨hformed _ (List.get_mem _ _), hdenotes.2 i hi hi', ?_⟩⟩
  exact Text.splitOn_clean '/' text.toList _ (List.get_mem _ _)

theorem regular_of_parse (hparse : parse text = .ok path) : ∀ step ∈ path.steps, Regular step := by
  intro step hstep
  by_cases hempty : text = ""
  · subst hempty
    cases hparse
    cases hstep
  · have hpieces := pieces_of_parse hempty hparse
    obtain ⟨i, hi, rfl⟩ := List.getElem_of_mem hstep
    exact (hpieces.get (hpieces.length_eq ▸ hi) hi).regular

theorem pieces_of_written (hsteps : ∀ step ∈ steps, Regular step) (h : List.Forall₂ WrittenAs steps tokens) :
    List.Forall₂ PieceOf tokens steps := by
  induction h with
  | nil => exact .nil
  | cons hstep hrest ih =>
      obtain ⟨hregular, hregulars⟩ := List.forall_mem_cons.1 hsteps
      exact .cons (hregular.pieceOf hstep) (ih hregulars)

end Paths

section Canonical

variable {text : String} {path : Path} {token : List Char} {tokens : List (List Char)} {step : Step}

def marks (conditional excited : Bool) : List Char :=
  (if conditional then ['?'] else []) ++ if excited then ['!'] else []

theorem modifiers_marks (conditional excited : Bool) : Modifiers (marks conditional excited) conditional excited := by
  cases conditional <;> cases excited <;> constructor

-- A step with the canonical name of its kind, and with `?` before `!`.
def canonicalStep (step : Step) : List Char :=
  step.kind.name.toList ++ ':' :: (step.value.toList ++ marks step.conditional step.excited)

def canonical (path : Path) : String := join (path.steps.map canonicalStep)

theorem Regular.canonical (h : Regular step) : WrittenAs step (canonicalStep step) := by
  obtain ⟨tag, -, hnames⟩ := h.named
  exact ⟨_, _, hnames.canonical, modifiers_marks _ _, rfl⟩

theorem rereads_canonical (hparse : parse text = .ok path) : Rereads path.canonical path := by
  have hregular := regular_of_parse hparse
  refine rereads_of_pieces (pieces_of_written hregular ?_)
  rw [List.forall₂_map_right_iff, List.forall₂_same]
  exact fun step hstep => (hregular step hstep).canonical

def BareNumber (token : List Char) : Prop :=
  ∃ digits marks conditional excited, token = digits ++ marks ∧ digits ≠ [] ∧ Text.Digits digits ∧
    Modifiers marks conditional excited

-- A position gets the name of its kind, or else the piece stays as it is.
def Tagged (token tagged : List Char) : Prop :=
  tagged = token ∨ BareNumber token ∧ tagged = "index:".toList ++ token

theorem BareNumber.writtenAs (h : BareNumber token) (hdenotes : Denotes token step) :
    WrittenAs step ("index:".toList ++ token) := by
  obtain ⟨digits, marks, conditional, excited, rfl, hne, hdigits, hmarks⟩ := h
  have hlast (c : Char) (hc : Text.isDigit c = false) : digits.getLast? ≠ some c := fun hlast => by
    rw [hdigits c (List.mem_of_getLast? hlast)] at hc
    cases hc
  have hstripped : Stripped (digits ++ marks) digits conditional excited :=
    ⟨⟨marks, hmarks, rfl⟩, fun _ => hlast '?' rfl, fun _ => hlast '!' rfl⟩
  have hstep : step = { kind := .index, value := String.ofList digits, conditional, excited } :=
    Denotes.unique ⟨digits, hstripped, .digits hdigits⟩ hdenotes
  have hindex : Names "index".toList .index := names_of_mem (by decide)
  have hvalue : step.value.toList = digits := by rw [hstep, String.toList_ofList]
  refine ⟨"index".toList, marks, by rwa [hstep], by rwa [hstep], ?_⟩
  rw [hvalue]
  exact List.append_assoc "index".toList [':'] (digits ++ marks)

theorem PieceOf.tagged {tagged : List Char} (h : PieceOf token step) (htagged : Tagged token tagged) :
    PieceOf tagged step := by
  rcases htagged with rfl | ⟨hbare, rfl⟩
  · exact h
  · exact h.regular.pieceOf (hbare.writtenAs h.denotes)

theorem pieces_tagged {steps : List Step} {tokens taggeds : List (List Char)} (h : List.Forall₂ PieceOf tokens steps)
    (htagged : List.Forall₂ Tagged tokens taggeds) : List.Forall₂ PieceOf taggeds steps := by
  induction htagged generalizing steps with
  | nil => exact h
  | cons htoken hrest ih =>
      cases h with
      | cons hpiece hpieces => exact .cons (hpiece.tagged htoken) (ih hpieces)

theorem rereads_tagged (hparse : parse text = .ok path)
    (htagged : List.Forall₂ Tagged (text.toList.splitOn '/') tokens) : Rereads (join tokens) path := by
  by_cases hempty : text = ""
  · subst hempty
    cases htagged with
    | cons hfirst hrest =>
        cases hrest
        rcases hfirst with rfl | ⟨⟨digits, marks, conditional, excited, hnil, hne, -⟩, -⟩
        · exact ⟨here, rfl, by cases hparse; rfl⟩
        · exact absurd (List.append_eq_nil_iff.1 hnil.symm).1 hne
  · exact rereads_of_pieces (pieces_tagged (pieces_of_parse hempty hparse) htagged)

-- A path is read back from every text in which its steps are written with one of the names of their kinds, in any case
-- of the ASCII letters, and with their marks in either order; and from its own text with the name in front of some of
-- the bare numbers. The canonical text is one of these, and it is the same for two paths exactly if they are equal.
theorem canonical_form (hparse : parse text = .ok path) :
    Rereads path.canonical path ∧
    (∀ tokens, List.Forall₂ WrittenAs path.steps tokens → Rereads (join tokens) path) ∧
    (∀ tokens, List.Forall₂ Tagged (text.toList.splitOn '/') tokens → Rereads (join tokens) path) ∧
    (∀ source other, parse source = .ok other → (other.canonical = path.canonical ↔ (other == path) = true)) := by
  refine ⟨rereads_canonical hparse,
    fun tokens hwritten => rereads_of_pieces (pieces_of_written (regular_of_parse hparse) hwritten),
    fun tokens htagged => rereads_tagged hparse htagged,
    fun source other hother => ⟨fun hsame => ?_, fun hequal => ?_⟩⟩
  · obtain ⟨found, hfound, hpath⟩ := rereads_canonical hparse
    obtain ⟨found', hfound', hpath'⟩ := rereads_canonical hother
    rw [hsame, hfound] at hfound'
    cases hfound'
    rw [beq_iff] at hpath hpath' ⊢
    rw [← hpath', hpath]
  · unfold canonical
    rw [beq_iff.1 hequal]

-- A path with a bare number, a tag that holds a mark, and a value that ends in one.
section Signs

def signs : Path where
  text := "Arms/2?/Kind?:a?!?"
  steps := [{ kind := .member, value := "Arms" }, { kind := .index, value := "2", conditional := true },
    { kind := .unknown "kind?", value := "a?", conditional := true, excited := true }]

theorem canonical_form_signs :
    parse "Arms/2?/Kind?:a?!?" = .ok signs ∧ signs.canonical = "member:Arms/index:2?/kind?:a??!" ∧
    Rereads "member:Arms/index:2?/kind?:a??!" signs ∧ Rereads "PROPERTY:Arms/list:2?/KIND?:a?!?" signs ∧
    Rereads "Arms/index:2?/Kind?:a?!?" signs := by
  have hparse : parse "Arms/2?/Kind?:a?!?" = .ok signs := by rfl
  have hcanonical : signs.canonical = "member:Arms/index:2?/kind?:a??!" := by rfl
  obtain ⟨hreread, hwritten, htagged, -⟩ := canonical_form hparse
  refine ⟨hparse, hcanonical, hcanonical ▸ hreread, ?_, ?_⟩
  · refine hwritten ["PROPERTY:Arms".toList, "list:2?".toList, "KIND?:a?!?".toList]
      (.cons ?_ (.cons ?_ (.cons ?_ .nil)))
    · exact ⟨"PROPERTY".toList, [], names_iff.2 rfl, .none, rfl⟩
    · exact ⟨"list".toList, ['?'], names_iff.2 rfl, .conditional, rfl⟩
    · exact ⟨"KIND?".toList, ['!', '?'], names_iff.2 rfl, .excitedConditional, rfl⟩
  · refine htagged ["Arms".toList, "index:2?".toList, "Kind?:a?!?".toList]
      (.cons (.inl rfl) (.cons ?_ (.cons (.inl rfl) .nil)))
    exact .inr ⟨⟨['2'], ['?'], true, false, rfl, by simp, List.forall_mem_singleton.2 rfl, .conditional⟩, rfl⟩

end Signs

-- Outside of ASCII a tag in another case is another tag.
section Accents

-- The two cases of a letter of ASCII or Latin-1: the small letter stands 32 places behind the capital.
def IsCase (capital small : Char) : Prop :=
  ('A' ≤ capital ∧ capital ≤ 'Z' ∨ 'À' ≤ capital ∧ capital ≤ 'Þ' ∧ capital ≠ '×') ∧
    small.toNat = capital.toNat + 32

-- The same letters, each of them in either case.
def SameLetters (tag other : List Char) : Prop :=
  List.Forall₂ (fun c d => c = d ∨ IsCase c d ∨ IsCase d c) tag other

theorem other_case_reread_otherwise : ∃ (text : String) (path : Path) (step : Step) (tag : List Char),
    parse text = .ok path ∧ path.steps = [step] ∧ SameLetters step.kind.name.toList tag ∧
    ¬Rereads (String.ofList (tag ++ ':' :: step.value.toList)) path := by
  have hletter : IsCase 'É' 'é' := ⟨.inr (by decide), rfl⟩
  have hname : SameLetters "É".toList ['é'] := .cons (.inr (.inl hletter)) .nil
  refine ⟨"É:x", ⟨"É:x", [{ kind := .unknown "É", value := "x" }]⟩,
    { kind := .unknown "É", value := "x" }, ['é'], rfl, rfl, hname, ?_⟩
  rintro ⟨other, hother, hequal⟩
  cases hother
  revert hequal
  decide

end Accents

end Canonical

end Path

end SceneLink
