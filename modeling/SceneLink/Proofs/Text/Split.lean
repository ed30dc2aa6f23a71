import SceneLink.Text.Split

namespace SceneLink.Text

variable {sep : Char} {cs : List Char}

-- A text and its pieces between the separators.
structure Cut (sep : Char) (cs : List Char) (pieces : List (List Char)) : Prop where
  nonempty : pieces ≠ []
  clean : ∀ piece ∈ pieces, sep ∉ piece
  joined : [sep].intercalate pieces = cs

theorem splitOn_clean (sep : Char) (cs : List Char) : ∀ piece ∈ cs.splitOn sep, sep ∉ piece := by
  induction cs with
  | nil => simp [List.splitOn_nil]
  | cons c cs ih =>
      rw [List.splitOn_cons_eq_if_modifyHead]
      obtain ⟨first, rest, hsplit⟩ := List.exists_cons_of_ne_nil (List.splitOn_ne_nil sep cs)
      rw [hsplit, List.forall_mem_cons] at ih
      split
      · simpa [hsplit] using ih
      · next hc =>
        have hne : sep ≠ c := fun h => hc (beq_iff_eq.2 h.symm)
        simpa [hsplit, hne] using ih

theorem splitOn_cut (sep : Char) (cs : List Char) : Cut sep cs (cs.splitOn sep) :=
  ⟨List.splitOn_ne_nil sep cs, splitOn_clean sep cs, List.intercalate_splitOn sep⟩

theorem Cut.splitOn_eq {pieces : List (List Char)} (h : Cut sep cs pieces) : cs.splitOn sep = pieces :=
  h.joined ▸ List.splitOn_intercalate sep h.clean h.nonempty

theorem intercalate_append_cons (before : List (List Char)) (piece : List Char) (after : List (List Char)) :
    [sep].intercalate (before ++ piece :: after) =
      before.flatMap (· ++ [sep]) ++ piece ++ after.flatMap (sep :: ·) := by
  induction before with
  | nil =>
      induction after generalizing piece with
      | nil => simp
      | cons next rest ih =>
          have hrest := ih next
          rw [List.nil_append] at hrest
          simp [List.intercalate_cons_cons, hrest]
  | cons first rest ih =>
      have hne : rest ++ piece :: after ≠ [] := by simp
      rw [List.cons_append, List.intercalate_cons_of_ne_nil hne, ih]
      simp

theorem splitOnce?_eq_none : splitOnce? sep cs = none ↔ sep ∉ cs := by
  induction cs with
  | nil => simp [splitOnce?]
  | cons c cs ih =>
      by_cases hc : c = sep
      · simp [splitOnce?, hc]
      · simp [splitOnce?, hc, ih, Ne.symm hc]

theorem splitOnce?_eq_some {before after : List Char} :
    splitOnce? sep cs = some (before, after) ↔ cs = before ++ sep :: after ∧ sep ∉ before := by
  induction cs generalizing before with
  | nil => simp [splitOnce?]
  | cons c cs ih =>
      unfold splitOnce?
      by_cases hc : c = sep
      · rw [if_pos hc, hc]
        constructor
        · intro h
          cases h
          exact ⟨rfl, List.not_mem_nil⟩
        · rintro ⟨heq, hbefore⟩
          cases before with
          | nil =>
              cases heq
              rfl
          | cons b bs =>
              cases heq
              exact absurd List.mem_cons_self hbefore
      · rw [if_neg hc, Option.map_eq_some_iff]
        constructor
        · rintro ⟨⟨bs, as⟩, hsplit, heq⟩
          cases heq
          obtain ⟨rfl, hbs⟩ := ih.1 hsplit
          exact ⟨rfl, by simp [Ne.symm hc, hbs]⟩
        · rintro ⟨heq, hbefore⟩
          cases before with
          | nil =>
              cases heq
              exact absurd rfl hc
          | cons b bs =>
              cases heq
              exact ⟨(bs, after), ih.2 ⟨rfl, fun h => hbefore (List.mem_cons_of_mem _ h)⟩, rfl⟩

theorem byteLength_eq (cs : List Char) : byteLength cs = (String.ofList cs).utf8ByteSize := by
  induction cs with
  | nil => rfl
  | cons c cs ih =>
      have hcons : String.ofList (c :: cs) = String.singleton c ++ String.ofList cs := by
        rw [String.singleton_eq_ofList, ← String.ofList_append]
        rfl
      rw [hcons, String.utf8ByteSize_append, String.utf8ByteSize_singleton, ← ih]
      rfl

theorem byteLength_append (as bs : List Char) : byteLength (as ++ bs) = byteLength as + byteLength bs := by
  rw [byteLength_eq, byteLength_eq, byteLength_eq, String.ofList_append, String.utf8ByteSize_append]

end SceneLink.Text
