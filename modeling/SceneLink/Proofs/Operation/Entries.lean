import Mathlib.Data.List.Forall2
import SceneLink.Proofs.Json.Framing
import SceneLink.Proofs.Operation.Batch

namespace SceneLink

namespace Json

open Text

-- Texts of values, one after another with a comma in between.
inductive Lists (room : Nat) : List Char → List Json → Prop
  | one {text : List Char} {json : Json} (h : IsText room text json) : Lists room text [json]
  | cons {text rest : List Char} {json : Json} {values : List Json} (h : IsText room text json)
      (hrest : Lists room rest values) : Lists room (text ++ ',' :: rest) (json :: values)

variable {room fuel : Nat} {cs ds rest gaps : List Char} {json : Json} {values others : List Json}

section Padding

theorem isText_behind (hgaps : Gaps gaps) (h : IsText room cs json) : IsText room (gaps ++ cs) json := by
  obtain ⟨before, core, behind, rfl, hbefore, hbehind, hframed⟩ := isText_iff.1 h
  exact isText_iff.2 ⟨gaps ++ before, core, behind, (List.append_assoc ..).symm,
    List.forall_mem_append.2 ⟨hgaps, hbefore⟩, hbehind, hframed⟩

theorem isText_before (hgaps : Gaps gaps) (h : IsText room cs json) : IsText room (cs ++ gaps) json := by
  obtain ⟨before, core, behind, rfl, hbefore, hbehind, hframed⟩ := isText_iff.1 h
  exact isText_iff.2 ⟨before, core, behind ++ gaps, by rw [List.append_assoc, List.append_assoc], hbefore,
    List.forall_mem_append.2 ⟨hbehind, hgaps⟩, hframed⟩

theorem isText_render (json : Json) (hdepth : json.depth ≤ room) : IsText room json.render json.reread := by
  have hread := readValue_render json (fuelFor json.render) room [] hdepth (Nat.le_add_right _ _)
    (fun _ h => nomatch h)
  rw [List.append_nil] at hread
  exact ⟨[], hread, rfl⟩

theorem Lists.behind (hgaps : Gaps gaps) (h : Lists room cs values) : Lists room (gaps ++ cs) values := by
  cases h with
  | one h => exact .one (isText_behind hgaps h)
  | cons h hrest =>
      rw [← List.append_assoc]
      exact .cons (isText_behind hgaps h) hrest

theorem Lists.before (hgaps : Gaps gaps) (h : Lists room cs values) : Lists room (cs ++ gaps) values := by
  induction h with
  | one h => exact .one (isText_before hgaps h)
  | cons h hrest ih =>
      rw [List.append_assoc, List.cons_append]
      exact .cons h ih

theorem Lists.append (h : Lists room cs values) (h' : Lists room ds others) :
    Lists room (cs ++ ',' :: ds) (values ++ others) := by
  induction h with
  | one h => exact .cons h h'
  | cons h hrest ih =>
      rw [List.append_assoc, List.cons_append, List.cons_append]
      exact .cons h ih

-- The gaps at the ends belong to the first and to the last of the texts.
theorem Lists.padded (h : Lists room cs values) : ∃ before core behind, cs = before ++ (core ++ behind) ∧
    Gaps before ∧ Gaps behind ∧ Solid core ∧ Lists room core values := by
  have hnone : Gaps [] := List.forall_mem_nil _
  induction h with
  | one h =>
      obtain ⟨before, core, behind, rfl, hbefore, hbehind, hframed⟩ := isText_iff.1 h
      exact ⟨before, core, behind, rfl, hbefore, hbehind, hframed.solid,
        .one (isText_iff.2 ⟨[], core, [], by simp, hnone, hnone, hframed⟩)⟩
  | @cons text rest json values h hrest ih =>
      obtain ⟨before, core, behind, rfl, hbefore, hbehind, hframed⟩ := isText_iff.1 h
      obtain ⟨before', core', behind', rfl, hbefore', hbehind', hsolid, hlists⟩ := ih
      have htext : IsText room (core ++ behind) json :=
        isText_iff.2 ⟨[], core, behind, rfl, hnone, hbehind, hframed⟩
      have hends : Solid ((core ++ behind) ++ ',' :: (before' ++ core')) := by
        have hjoined := hframed.solid.append (behind ++ ',' :: before') hsolid
        simpa using hjoined
      refine ⟨before, (core ++ behind) ++ ',' :: (before' ++ core'), behind', by simp, hbefore, hbehind', hends, ?_⟩
      exact .cons htext (hlists.behind hbefore')

end Padding

section Reading

theorem lists_of_readItems (h : readItems fuel room cs = some (values, rest)) :
    ∃ raw, cs = raw ++ ']' :: rest ∧ Lists room raw values := by
  induction fuel generalizing cs values with
  | zero => cases h
  | succ fuel ih =>
      -- An item with the gaps on both sides of it.
      have htext {item : Json} {tail behind more : List Char} (hitem : readValue fuel room cs = some (item, tail))
          (hbehind : Gaps behind) (htail : tail = behind ++ more) :
          ∃ text, cs = text ++ more ∧ IsText room text item := by
        obtain ⟨core, hcore, hframed⟩ := (readsFramed fuel).value hitem
        obtain ⟨before, hbefore, hcs⟩ := exists_gaps_of_skip hcore
        refine ⟨before ++ (core ++ behind), by rw [hcs, htail]; simp, ?_⟩
        exact isText_iff.2 ⟨before, core, behind, rfl, hbefore, hbehind, hframed⟩
      cases readItems_cases h with
      | last hitem hclose =>
          obtain ⟨behind, hbehind, htail⟩ := exists_gaps_of_skip hclose
          obtain ⟨text, hcs, hjson⟩ := htext hitem hbehind htail
          exact ⟨text, hcs, .one hjson⟩
      | cons hitem hcomma hitems =>
          obtain ⟨behind, hbehind, htail⟩ := exists_gaps_of_skip hcomma
          obtain ⟨text, hcs, hjson⟩ := htext hitem hbehind htail
          obtain ⟨raw, hraw, hlists⟩ := ih hitems
          exact ⟨_, by rw [hcs, hraw]; simp, .cons hjson hlists⟩

theorem readItems_of_lists (h : Lists room cs values) (rest : List Char) (hfuel : 2 * cs.length + 1 ≤ fuel) :
    readItems fuel room (cs ++ ']' :: rest) = some (values, rest) := by
  induction h generalizing fuel with
  | one h =>
      obtain ⟨before, core, behind, rfl, hbefore, hbehind, hframed⟩ := isText_iff.1 h
      simp only [List.length_append] at hfuel
      obtain ⟨fuel, rfl⟩ : ∃ f, fuel = f + 1 := ⟨fuel - 1, by omega⟩
      rw [List.append_assoc, List.append_assoc, readItems_gaps hbefore,
        readItems_item hframed hbehind (.inr rfl) (by omega), if_neg (by decide)]
  | @cons text more json values h hmore ih =>
      obtain ⟨before, core, behind, rfl, hbefore, hbehind, hframed⟩ := isText_iff.1 h
      simp only [List.length_append, List.length_cons] at hfuel
      obtain ⟨fuel, rfl⟩ : ∃ f, fuel = f + 1 := ⟨fuel - 1, by omega⟩
      simp only [List.append_assoc, List.cons_append]
      rw [readItems_gaps hbefore, readItems_item hframed hbehind (.inl rfl) (by omega), if_pos rfl, ih (by omega)]
      rfl

theorem Lists.head_ne (h : Lists room cs values) : cs.head? ≠ some ']' := by
  intro hhead
  obtain ⟨tail, rfl⟩ := List.head?_eq_some_iff.1 hhead
  have hread : readItems (2 * (']' :: tail).length + 2) room (']' :: tail ++ [']']) = some (values, []) :=
    readItems_of_lists h [] (by omega)
  have hfails (fuel : Nat) (more : List Char) : readItems (fuel + 2) room (']' :: more) = none := rfl
  rw [List.cons_append, hfails] at hread
  cases hread

theorem brackets_iff (hsolid : Solid cs) :
    (parseChars? ('[' :: cs ++ [']'])).bind items? = some values ↔ Lists (maxDepth - 1) cs values := by
  have hclosed : Solid (cs ++ [']']) := hsolid.append [] (solid_one rfl)
  have hroom : maxDepth ≠ 0 := by decide
  constructor
  · intro h
    obtain ⟨json, hjson, hitems⟩ := Option.bind_eq_some_iff.1 h
    obtain ⟨rest, hread, hrest⟩ := parseChars?_eq_some.1 hjson
    -- Gaps are all that may follow, and the text ends with a bracket.
    have hend (front : List Char) {more : List Char} (hmore : skip more = [])
        (heq : cs ++ [']'] = front ++ more) : more = [] := by
      rcases List.eq_nil_or_concat more with hnil | ⟨init, c, rfl⟩
      · exact hnil
      · have hlast := congrArg List.getLast? heq
        rw [List.concat_eq_append, ← List.append_assoc, List.getLast?_concat, List.getLast?_concat] at hlast
        have hgap := skip_eq_nil.1 hmore c (by simp)
        cases hlast
        cases hgap
    rw [fuelFor, List.cons_append, readValue, skip_cons rfl] at hread
    simp only [if_neg hroom, skip_solid hsolid] at hread
    split at hread
    · next more heq =>
      cases hread
      have hnil : rest = [] := hend [']'] hrest heq
      have hlength := congrArg List.length heq
      rw [hnil, List.length_append] at hlength
      exact absurd (List.length_eq_zero_iff.1 (by simpa using hlength)) hsolid.ne_nil
    · obtain ⟨⟨items, more⟩, hinside, heq⟩ := Option.map_eq_some_iff.1 hread
      cases heq
      cases hitems
      obtain ⟨raw, hraw, hlists⟩ := lists_of_readItems hinside
      have hnil : more = [] := hend (raw ++ [']']) hrest (by rw [hraw]; simp)
      rw [hnil] at hraw
      exact List.append_cancel_right hraw ▸ hlists
  · intro h
    have hnone : Gaps [] := List.forall_mem_nil _
    have hopen : (cs ++ [']']).head? ≠ some ']' := by
      rw [List.head?_append_of_ne_nil cs hsolid.ne_nil]
      exact h.head_ne
    have hitems : FramedItems (maxDepth - 1) (cs ++ [']']) values := by
      refine ⟨hclosed, fun {more fuel} hfuel => ?_⟩
      rw [List.length_append, List.length_singleton] at hfuel
      rw [List.append_assoc, List.singleton_append]
      exact readItems_of_lists h more (by omega)
    have htext : IsText maxDepth ('[' :: cs ++ [']']) (arr values) :=
      isText_iff.2 ⟨[], _, [], (List.append_nil _).symm, hnone, hnone, framed_array hnone hroom hopen hitems⟩
    rw [parseChars?_eq_some.2 htext]
    rfl

end Reading

end Json

namespace Batch

open Json (Lists Gaps IsText maxDepth)

-- The text of one entry. The brackets of the batch take one of the levels that may open.
def Entry (text : String) (value : Json) : Prop := IsText (maxDepth - 1) text.toList value

def warnings (entries : List Json) : List Log.Line :=
  (entries.filter fun entry => (Operation.ofJson? entry).isNone).map fun _ =>
    ⟨.warn, "Skipping malformed operation in batch: not an operation"⟩

-- What is trimmed off a text are gaps, and no other white space.
def PlainEnds (raw : String) : Prop := ∃ before behind, Gaps before ∧ Gaps behind ∧
  raw.toList = before ++ (Text.trim raw.toList ++ behind)

variable {raw a b : String} {texts : List String} {values others : List Json} {cs : List Char}
  {ops more : List Operation}

theorem keepOperations_eq (entries : List Json) :
    keepOperations entries = ⟨entries.filterMap Operation.ofJson?, warnings entries⟩ := by
  induction entries with
  | nil => rfl
  | cons entry entries ih =>
      rw [keepOperations, ih]
      cases hop : Operation.ofJson? entry with
      | none =>
          unfold warnings
          rw [List.filterMap_cons_none hop, List.filter_cons_of_pos (by rw [hop]; rfl)]
          rfl
      | some op =>
          unfold warnings
          rw [List.filterMap_cons_some hop, List.filter_cons_of_neg (by rw [hop]; exact Bool.false_ne_true)]
          exact Logged.bind_pure_eq ..

private theorem warnings_append (values others : List Json) :
    warnings (values ++ others) = warnings values ++ warnings others := by
  unfold warnings
  rw [List.filter_append, List.map_append]

theorem entries?_eq_some (hne : Text.trim raw.toList ≠ []) :
    entries? raw = some values ↔ Lists (maxDepth - 1) (Text.trim raw.toList) values := by
  unfold entries?
  dsimp only
  rw [if_neg hne]
  exact Json.brackets_iff (Text.solid_trim hne)

theorem decode_of_entries? (h : entries? raw = some values) :
    decode raw = ⟨.ok (values.filterMap Operation.ofJson?), warnings values⟩ := by
  unfold decode
  rw [h]
  dsimp only
  rw [keepOperations_eq]
  exact Logged.bind_pure_eq ..

theorem entries?_of_decode (h : (decode raw).value = .ok ops) :
    ∃ values, entries? raw = some values ∧ ops = values.filterMap Operation.ofJson? := by
  cases hentries : entries? raw with
  | none =>
      unfold decode at h
      rw [hentries] at h
      cases h
  | some values =>
      rw [decode_of_entries? hentries] at h
      exact ⟨values, rfl, (Except.ok.inj h).symm⟩

theorem decode_of_lists (h : Lists (maxDepth - 1) raw.toList values) :
    decode raw = ⟨.ok (values.filterMap Operation.ofJson?), warnings values⟩ := by
  obtain ⟨before, core, behind, hraw, hbefore, hbehind, hsolid, hlists⟩ := h.padded
  have htrim : Text.trim raw.toList = core := by
    rw [hraw]
    exact Text.trim_padded hbefore.blank hsolid hbehind.blank
  refine decode_of_entries? ((entries?_eq_some ?_).2 ?_)
  · rw [htrim]
    exact hsolid.ne_nil
  · rw [htrim]
    exact hlists

theorem lists_of_decode (h : (decode raw).value = .ok ops) (hne : Text.trim raw.toList ≠ []) :
    ∃ values, Lists (maxDepth - 1) (Text.trim raw.toList) values ∧ ops = values.filterMap Operation.ofJson? := by
  obtain ⟨values, hentries, hops⟩ := entries?_of_decode h
  exact ⟨values, (entries?_eq_some hne).1 hentries, hops⟩

theorem lists_of_plainEnds (h : Lists (maxDepth - 1) (Text.trim raw.toList) values) (hends : PlainEnds raw) :
    Lists (maxDepth - 1) raw.toList values := by
  obtain ⟨before, behind, hbefore, hbehind, hraw⟩ := hends
  rw [hraw]
  exact (h.before hbehind).behind hbefore

private theorem toList_join_cons_cons (text next : String) (texts : List String) :
    (join (text :: next :: texts)).toList = text.toList ++ ',' :: (join (next :: texts)).toList := by
  rw [toList_join, toList_join, List.map_cons, List.map_cons, List.intercalate_cons_cons]
  exact List.append_assoc ..

theorem lists_join (h : List.Forall₂ Entry texts values) (hne : texts ≠ []) :
    Lists (maxDepth - 1) (join texts).toList values := by
  induction h with
  | nil => exact absurd rfl hne
  | @cons text value texts values htext hrest ih =>
      cases texts with
      | nil =>
          cases hrest
          rw [toList_join, List.map_singleton, List.intercalate_singleton]
          exact .one htext
      | cons next texts =>
          rw [toList_join_cons_cons]
          exact .cons htext (ih (List.cons_ne_nil _ _))

theorem exists_texts (h : Lists (maxDepth - 1) cs values) :
    ∃ texts, texts ≠ [] ∧ List.Forall₂ Entry texts values ∧ (join texts).toList = cs := by
  induction h with
  | @one text json h =>
      have hentry : Entry (String.ofList text) json := by
        unfold Entry
        rwa [String.toList_ofList]
      refine ⟨[String.ofList text], List.cons_ne_nil _ _, .cons hentry .nil, ?_⟩
      rw [toList_join, List.map_singleton, List.intercalate_singleton]
      exact String.toList_ofList
  | @cons text rest json values h hrest ih =>
      have hentry : Entry (String.ofList text) json := by
        unfold Entry
        rwa [String.toList_ofList]
      obtain ⟨texts, hne, htexts, hjoin⟩ := ih
      obtain ⟨next, texts, rfl⟩ := List.exists_cons_of_ne_nil hne
      refine ⟨String.ofList text :: next :: texts, List.cons_ne_nil _ _, .cons hentry htexts, ?_⟩
      rw [toList_join_cons_cons, hjoin, String.toList_ofList]

-- A batch of any texts of values is decoded, entry by entry and in order, and an entry that is not an operation is
-- left out with a warning. Two texts that are decoded, with no other white space than gaps at their ends, are decoded
-- next to each other as each is by itself. And whatever is decoded is blank or such a batch, trimmed.
theorem decodes_entry_by_entry :
    (∀ texts values, List.Forall₂ Entry texts values →
      decode (join texts) = ⟨.ok (values.filterMap Operation.ofJson?), warnings values⟩) ∧
    (∀ a b ops more, Text.trim a.toList ≠ [] → Text.trim b.toList ≠ [] → PlainEnds a → PlainEnds b →
      (decode a).value = .ok ops → (decode b).value = .ok more →
      decode (a ++ "," ++ b) = ⟨.ok (ops ++ more), (decode a).output ++ (decode b).output⟩) ∧
    ∀ raw ops, (decode raw).value = .ok ops → Text.trim raw.toList = [] ∧ ops = [] ∨
      ∃ texts values, texts ≠ [] ∧ List.Forall₂ Entry texts values ∧
        (join texts).toList = Text.trim raw.toList ∧ ops = values.filterMap Operation.ofJson? := by
  refine ⟨fun texts values h => ?_, fun a b ops more ha hb haends hbends hops hmore => ?_, fun raw ops h => ?_⟩
  · by_cases hne : texts = []
    · subst hne
      cases h
      rfl
    · exact decode_of_lists (lists_join h hne)
  · obtain ⟨values, hvalues, rfl⟩ := lists_of_decode hops ha
    obtain ⟨others, hothers, rfl⟩ := lists_of_decode hmore hb
    have hleft : Lists (maxDepth - 1) a.toList values := lists_of_plainEnds hvalues haends
    have hright : Lists (maxDepth - 1) b.toList others := lists_of_plainEnds hothers hbends
    have hboth : Lists (maxDepth - 1) (a ++ "," ++ b).toList (values ++ others) := by
      rw [String.toList_append, String.toList_append, List.append_assoc]
      exact hleft.append hright
    rw [decode_of_lists hboth, decode_of_lists hleft, decode_of_lists hright, List.filterMap_append, warnings_append]
  · by_cases hne : Text.trim raw.toList = []
    · have hentries : entries? raw = some [] := if_pos hne
      rw [decode_of_entries? hentries] at h
      exact .inl ⟨hne, (Except.ok.inj h).symm⟩
    · obtain ⟨values, hlists, hops⟩ := lists_of_decode h hne
      obtain ⟨texts, htexts, hentries, hjoin⟩ := exists_texts hlists
      exact .inr ⟨texts, values, htexts, hentries, hjoin, hops⟩

theorem plainEnds_padded {before core behind : List Char} (hbefore : Gaps before) (hbehind : Gaps behind)
    (hsolid : Text.Solid core) (hraw : raw.toList = before ++ (core ++ behind)) :
    Text.trim raw.toList ≠ [] ∧ PlainEnds raw := by
  have htrim : Text.trim raw.toList = core := by
    rw [hraw]
    exact Text.trim_padded hbefore.blank hsolid hbehind.blank
  refine ⟨htrim ▸ hsolid.ne_nil, before, behind, hbefore, hbehind, ?_⟩
  rw [htrim]
  exact hraw

-- An operation, and a string of brackets and a comma.
section Mixed

def noted : Json := .obj [("event", .str "Log")]

def strayed : Json := .str "],["

def note : String := String.ofList (' ' :: noted.render)

def stray : String := String.ofList (strayed.render ++ ['\n'])

theorem decodes_entry_by_entry_mixed :
    List.Forall₂ Entry [note, stray] [noted, strayed] ∧
    decode (join [note, stray]) = ⟨.ok [{ event := .log }], warnings [strayed]⟩ ∧
    decode (stray ++ "," ++ note) = ⟨.ok [{ event := .log }], warnings [strayed]⟩ ∧
    ∃ texts values, texts ≠ [] ∧ List.Forall₂ Entry texts values ∧
      (join texts).toList = Text.trim stray.toList ∧ [] = values.filterMap Operation.ofJson? := by
  obtain ⟨hdecodes, hjoins, hreads⟩ := decodes_entry_by_entry
  have hgap : Gaps [' '] ∧ Gaps ['\n'] ∧ Gaps [] :=
    ⟨List.forall_mem_singleton.2 rfl, List.forall_mem_singleton.2 rfl, List.forall_mem_nil _⟩
  have hnoteText : note.toList = [' '] ++ (noted.render ++ []) := by
    rw [List.append_nil]
    exact String.toList_ofList
  have hstrayText : stray.toList = [] ++ (strayed.render ++ ['\n']) := String.toList_ofList
  have hnote : Entry note noted := by
    unfold Entry
    rw [hnoteText, List.append_nil]
    exact Json.isText_behind hgap.1 (Json.isText_render noted (by decide))
  have hstray : Entry stray strayed := by
    unfold Entry
    rw [hstrayText, List.nil_append]
    exact Json.isText_before hgap.2.1 (Json.isText_render strayed (by decide))
  have hbraces : Text.Solid noted.render := by
    change Text.Solid (['\x7b'] ++ (Json.renderFields [("event", .str "Log")] ++ ['\x7d']))
    exact (Text.solid_one rfl).append _ (Text.solid_one rfl)
  have hquotes : Text.Solid strayed.render := by
    change Text.Solid (['"'] ++ ("],[".toList.flatMap Json.renderChar ++ ['"']))
    exact (Text.solid_one rfl).append _ (Text.solid_one rfl)
  obtain ⟨hnoteFull, hnoteEnds⟩ := plainEnds_padded hgap.1 hgap.2.2 hbraces hnoteText
  obtain ⟨hstrayFull, hstrayEnds⟩ := plainEnds_padded hgap.2.2 hgap.2.1 hquotes hstrayText
  have hnoteAlone : decode note = ⟨.ok [{ event := .log }], []⟩ := decode_of_lists (.one hnote)
  have hstrayAlone : decode stray = ⟨.ok [], warnings [strayed]⟩ := decode_of_lists (.one hstray)
  have hstrayOps : (decode stray).value = .ok [] := congrArg Logged.value hstrayAlone
  refine ⟨.cons hnote (.cons hstray .nil), hdecodes _ _ (.cons hnote (.cons hstray .nil)), ?_, ?_⟩
  · have hboth := hjoins stray note [] [{ event := .log }] hstrayFull hnoteFull hstrayEnds hnoteEnds hstrayOps
      (congrArg Logged.value hnoteAlone)
    rw [hstrayAlone, hnoteAlone, List.append_nil] at hboth
    exact hboth
  · rcases hreads stray [] hstrayOps with ⟨hblank, -⟩ | hsome
    · exact absurd hblank hstrayFull
    · exact hsome

end Mixed

end Batch

end SceneLink
