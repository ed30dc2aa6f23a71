import SceneLink.Proofs.Json.Weight
import SceneLink.Proofs.Path.Grammar
import SceneLink.World.Read

namespace SceneLink

namespace Path

section Steps

variable {token : List Char} {text : String} {path : Path} {step : Step}

theorem Reads.sublist {body : List Char} {kind : StepKind} {value : String} (h : Reads body kind value) :
    value.toList.Sublist body := by
  cases h with
  | digits | name =>
      rw [String.toList_ofList]
  | @tagged tag value =>
      rw [String.toList_ofList]
      exact (List.sublist_cons_self ':' value).trans (List.sublist_append_right tag _)

theorem Denotes.sublist (h : Denotes token step) : step.value.toList.Sublist token := by
  obtain ⟨body, ⟨⟨marks, -, rfl⟩, -, -⟩, hreads⟩ := h
  exact hreads.sublist.trans (List.sublist_append_left body marks)

-- Each piece stands in the text.
theorem sublist_of_cut {sep : Char} {cs : List Char} {pieces : List (List Char)}
    (h : Text.Cut sep cs pieces) {piece : List Char} (hpiece : piece ∈ pieces) : piece.Sublist cs := by
  obtain ⟨before, after, rfl⟩ := List.mem_iff_append.1 hpiece
  rw [← h.joined, Text.intercalate_append_cons, List.append_assoc]
  exact (List.sublist_append_left piece _).trans (List.sublist_append_right _ _)

theorem exists_denotes {tokens : List (List Char)} {steps : List Step}
    (h : List.Forall₂ Denotes tokens steps) (hstep : step ∈ steps) : ∃ token ∈ tokens, Denotes token step := by
  induction h with
  | nil => cases hstep
  | @cons token _ _ _ hdenotes _ ih =>
      rcases List.mem_cons.1 hstep with rfl | hstep
      · exact ⟨token, List.mem_cons_self, hdenotes⟩
      · obtain ⟨other, hother, hdenotes⟩ := ih hstep
        exact ⟨other, List.mem_cons_of_mem _ hother, hdenotes⟩

theorem value_sublist (h : parse text = .ok path) (hstep : step ∈ path.steps) :
    step.value.toList.Sublist path.text.toList := by
  obtain ⟨hcut, -, hparsed, -⟩ := parse_grammar text
  obtain ⟨rfl, hempty, hdenotes⟩ := hparsed path h
  by_cases htext : path.text = ""
  · rw [hempty htext] at hstep
    cases hstep
  · obtain ⟨token, htoken, hdenotes⟩ := exists_denotes (hdenotes htext) hstep
    exact hdenotes.sublist.trans (sublist_of_cut hcut htoken)

end Steps

end Path

namespace Expression

section References

variable {text : String} {source : Path} {w : Char → Nat}

-- What reads as a reference is the text of a path in the one field of an object.
theorem ofJson_reference {json : Json} (h : ofJson json = .ok (.reference source)) :
    json = .obj [("_path_", .str source.text)] ∧ Path.parse source.text = .ok source := by
  unfold ofJson at h
  split at h
  · next name inner =>
    split at h
    · cases hread : Change.read inner <;> rw [hread] at h <;> cases h
    · split at h
      · next hname =>
        subst hname
        unfold readReference at h
        split at h
        · next text =>
          split at h
          · next path hparse =>
            cases h
            obtain ⟨-, -, hparsed, -⟩ := Path.parse_grammar text
            obtain ⟨rfl, -⟩ := hparsed source hparse
            exact ⟨rfl, hparse⟩
          · cases h
        · cases h
      · cases h
  · cases h

theorem parse_of_reference (h : ofJson (Json.ofText text) = .ok (.reference source)) :
    Json.parse? text = some (.obj [("_path_", .str source.text)]) ∧ Path.parse source.text = .ok source := by
  obtain ⟨hjson, hparse⟩ := ofJson_reference h
  refine ⟨?_, hparse⟩
  unfold Json.ofText at hjson
  cases hread : Json.parse? text with
  | none =>
      rw [hread] at hjson
      cases hjson
  | some json =>
      rw [hread] at hjson
      exact congrArg some hjson

theorem weigh_reference (hw : Json.Weight w) (h : ofJson (Json.ofText text) = .ok (.reference source)) :
    Text.weigh w source.text.toList < Text.weigh w text.toList :=
  Json.weigh_of_parse? hw (parse_of_reference h).1 (.field List.mem_cons_self (.here _))

theorem weigh_step (h : ofJson (Json.ofText text) = .ok (.reference source)) {step : Step}
    (hstep : step ∈ source.steps) :
    Text.weigh w step.value.toList ≤ Text.weigh w source.text.toList :=
  Text.weigh_le_of_sublist (Path.value_sublist (parse_of_reference h).2 hstep)

theorem weigh_utf8Size (s : String) : Text.weigh Char.utf8Size s.toList = s.utf8ByteSize := by
  have hbytes := Text.byteLength_eq s.toList
  rwa [String.ofList_toList] at hbytes

-- The same in bytes, and for the steps of the path.
theorem reference_shorter (h : ofJson (Json.ofText text) = .ok (.reference source)) :
    source.text.utf8ByteSize < text.utf8ByteSize ∧
      ∀ step ∈ source.steps, step.value.utf8ByteSize ≤ source.text.utf8ByteSize := by
  simp only [← weigh_utf8Size]
  exact ⟨weigh_reference Json.weight_utf8Size h, fun step hstep => weigh_step h hstep⟩

-- The same in characters.
theorem step_length_lt (h : ofJson (Json.ofText text) = .ok (.reference source)) {step : Step}
    (hstep : step ∈ source.steps) : step.value.length < text.length := by
  have hless := Nat.lt_of_le_of_lt (weigh_step h hstep) (weigh_reference Json.weight_one h)
  rwa [Text.weigh_one, Text.weigh_one, String.length_toList, String.length_toList] at hless

end References

end Expression

end SceneLink
