import SceneLink.Proofs.Operation.Batch

namespace SceneLink.Batch

open Json

-- Where a scan of a batch stands: outside of all strings or in one, and behind how many brackets
-- that are still open. The character behind a backslash means nothing to it.
inductive Scan where
  | plain (depth : Nat)
  | quoted (depth : Nat)
  | escaped (depth : Nat)
deriving DecidableEq

def Scan.next : Scan → Char → Scan
  | plain depth, c =>
    if c = '"' then quoted depth
    else if c = '[' ∨ c = '{' then plain (depth + 1)
    else if c = ']' ∨ c = '}' then plain (depth - 1)
    else plain depth
  | quoted depth, c => if c = '"' then plain depth else if c = '\\' then escaped depth else quoted depth
  | escaped depth, _ => quoted depth

-- The pieces between the commas that stand outside of all strings and brackets.
def piecesFrom : Scan → List Char → List (List Char)
  | _, [] => [[]]
  | scan, c :: cs =>
    if scan = .plain 0 ∧ c = ',' then [] :: piecesFrom scan cs
    else (piecesFrom (scan.next c) cs).modifyHead (List.cons c)

-- The texts that a batch was joined from.
def cut (raw : String) : List String :=
  if raw = "" then [] else (piecesFrom (.plain 0) raw.toList).map String.ofList

-- From the first state a scan of the text ends in the last one, and meets no comma to cut at.
inductive Spans : Scan → List Char → Scan → Prop
  | nil (scan : Scan) : Spans scan [] scan
  | cons {scan last : Scan} {c : Char} {cs : List Char} (hc : ¬(scan = .plain 0 ∧ c = ','))
      (h : Spans (scan.next c) cs last) : Spans scan (c :: cs) last

section Spans

variable {scan middle last : Scan} {cs ds : List Char} {depth : Nat}

theorem Spans.append (h : Spans scan cs middle) (h' : Spans middle ds last) : Spans scan (cs ++ ds) last := by
  induction h with
  | nil => exact h'
  | cons hc _ ih => exact .cons hc (ih h')

theorem Spans.pieces_append (h : Spans scan cs middle) (rest : List Char) :
    piecesFrom scan (cs ++ rest) = (piecesFrom middle rest).modifyHead (cs ++ ·) := by
  induction h with
  | nil => exact (congrFun List.modifyHead_id _).symm
  | cons hc _ ih =>
      rw [List.cons_append, piecesFrom, if_neg hc, ih, List.modifyHead_modifyHead]
      rfl

theorem Spans.pieces (h : Spans scan cs last) : piecesFrom scan cs = [cs] := by
  have happend := h.pieces_append []
  rw [List.append_nil] at happend
  rw [happend]
  simp [piecesFrom]

theorem pieces_intercalate {texts : List (List Char)} (hne : texts ≠ [])
    (h : ∀ text ∈ texts, Spans (.plain 0) text (.plain 0)) :
    piecesFrom (.plain 0) ([','].intercalate texts) = texts := by
  induction texts with
  | nil => exact absurd rfl hne
  | cons text texts ih =>
      obtain ⟨htext, htexts⟩ := List.forall_mem_cons.1 h
      cases texts with
      | nil =>
          rw [List.intercalate_singleton]
          exact htext.pieces
      | cons next texts =>
          have hrest := ih (List.cons_ne_nil _ _) htexts
          rw [List.intercalate_cons_cons, List.append_assoc, htext.pieces_append, List.singleton_append,
            piecesFrom, if_pos ⟨rfl, rfl⟩, hrest]
          simp

private theorem spans_one {c : Char} (hc : ¬(scan = .plain 0 ∧ c = ',')) (hnext : scan.next c = last) :
    Spans scan [c] last := by
  subst hnext
  exact .cons hc (.nil _)

-- Neither a quote nor a bracket nor a comma.
def Neutral (c : Char) : Prop := c ∉ ['"', '[', '{', ']', '}', ',']

instance (c : Char) : Decidable (Neutral c) := inferInstanceAs (Decidable (c ∉ _))

theorem spans_neutral (h : ∀ c ∈ cs, Neutral c) (depth : Nat) : Spans (.plain depth) cs (.plain depth) := by
  induction cs with
  | nil => exact .nil _
  | cons c cs ih =>
      obtain ⟨hc, hcs⟩ := List.forall_mem_cons.1 h
      simp only [Neutral, List.mem_cons, List.not_mem_nil, or_false, not_or] at hc
      have hfirst : Spans (.plain depth) [c] (.plain depth) := spans_one (by simp [hc]) (by simp [Scan.next, hc])
      exact hfirst.append (ih hcs)

theorem Spans.comma (h : Spans (.plain (depth + 1)) cs last) : Spans (.plain (depth + 1)) (',' :: cs) last :=
  .cons (by simp) h

end Spans

section Render

variable {depth : Nat}

theorem spans_renderChar (c : Char) : Spans (.quoted depth) (renderChar c) (.quoted depth) := by
  have hescape : ∀ d, Spans (.quoted depth) ['\\', d] (.quoted depth) := fun d =>
    .cons (by simp) (spans_one (by simp [Scan.next]) rfl)
  have hplain : ∀ d, d ≠ '"' → d ≠ '\\' → Spans (.quoted depth) [d] (.quoted depth) := by
    intro d hquote hslash
    exact spans_one (by simp) (by simp [Scan.next, hquote, hslash])
  have hdigit : ∀ n < 16, hexDigit n ≠ '"' ∧ hexDigit n ≠ '\\' := by decide
  unfold renderChar
  split
  · exact hescape _
  · exact hescape _
  · exact hescape _
  · exact hescape _
  · exact hescape _
  · next hquote hslash _ _ _ =>
    split
    · exact hescape _
    · split
      · exact hescape _
      · split
        · next hsmall =>
          obtain ⟨hhigh, hhigh'⟩ := hdigit (c.toNat / 16) (by omega)
          obtain ⟨hlow, hlow'⟩ := hdigit (c.toNat % 16) (by omega)
          have hzero := hplain '0' (by decide) (by decide)
          exact (hescape 'u').append (hzero.append (hzero.append
            ((hplain _ hhigh hhigh').append (hplain _ hlow hlow'))))
        · exact hplain c hquote hslash

theorem spans_renderString (s : String) : Spans (.plain depth) (renderString s) (.plain depth) := by
  have hchars : ∀ cs : List Char, Spans (.quoted depth) (cs.flatMap renderChar) (.quoted depth) := by
    intro cs
    induction cs with
    | nil => exact .nil _
    | cons c cs ih => exact (spans_renderChar c).append ih
  have hclose : Spans (.quoted depth) ['"'] (.plain depth) := spans_one (by simp) rfl
  exact .cons (by simp) ((hchars _).append hclose)

private theorem neutral_of_isDigit {c : Char} (h : Text.isDigit c = true) : Neutral c := by
  intro hmem
  have hnone : ∀ d ∈ ['"', '[', '{', ']', '}', ','], Text.isDigit d = false := by simp [Text.isDigit]
  exact Bool.false_ne_true ((hnone c hmem).symm.trans h)

private theorem neutral_signed {body : List Char} (negative : Bool) (h : ∀ c ∈ body, Neutral c) :
    ∀ c ∈ signed negative body, Neutral c := by
  cases negative with
  | false => exact h
  | true => exact List.forall_mem_cons.2 ⟨by simp [Neutral], h⟩

theorem neutral_numeral {m : Numeral} (h : m.Proper) : ∀ c ∈ m.text, Neutral c := by
  have hdigits : ∀ n, ∀ c ∈ Nat.toDigits 10 n, Neutral c := fun n c hc =>
    neutral_of_isDigit (Text.digits_toDigits n c hc)
  have hfraction : ∀ c ∈ fractionText m.fraction, Neutral c := by
    cases hf : m.fraction with
    | none => exact List.forall_mem_nil _
    | some ds => exact List.forall_mem_cons.2 ⟨by simp [Neutral],
        fun c hc => neutral_of_isDigit ((h.fraction ds hf).2 c hc)⟩
  have hexponent : ∀ c ∈ exponentText m.exponent, Neutral c := by
    cases m.exponent with
    | none => exact List.forall_mem_nil _
    | some e =>
        refine List.forall_mem_cons.2 ⟨by simp [Neutral], List.forall_mem_cons.2 ⟨?_, hdigits _⟩⟩
        split <;> simp [Neutral]
  have hwhole : ∀ c ∈ m.whole, Neutral c := fun c hc => neutral_of_isDigit (h.whole c hc)
  exact List.forall_mem_append.2 ⟨hwhole, List.forall_mem_append.2 ⟨hfraction, hexponent⟩⟩

theorem neutral_renderNumber (n : Number) : ∀ c ∈ renderNumber n, Neutral c := by
  cases n with
  | float x =>
      obtain ⟨m, htext, hproper, -⟩ := renderDouble_eq x
      change ∀ c ∈ renderDouble x, Neutral c
      rw [htext]
      exact neutral_signed _ (neutral_numeral hproper)
  | int n low high =>
      have hdigits : ∀ n, ∀ c ∈ Nat.toDigits 10 n, Neutral c := fun n c hc =>
        neutral_of_isDigit (Text.digits_toDigits n c hc)
      cases n with
      | ofNat n => exact hdigits n
      | negSucc n => exact neutral_signed true (hdigits (n + 1))

private theorem spans_bracketed {first last : Char} {body : List Char} (hfirst : first = '[' ∨ first = '{')
    (hlast : last = ']' ∨ last = '}') (h : Spans (.plain (depth + 1)) body (.plain (depth + 1))) :
    Spans (.plain depth) (first :: body ++ [last]) (.plain depth) := by
  have hopen : Spans (.plain depth) [first] (.plain (depth + 1)) := by
    rcases hfirst with rfl | rfl <;> exact spans_one (by simp) rfl
  have hclose : Spans (.plain (depth + 1)) [last] (.plain depth) := by
    rcases hlast with rfl | rfl <;> exact spans_one (by simp) rfl
  exact hopen.append (h.append hclose)

private theorem spans_field {body : List Char} (name : String) (h : Spans (.plain depth) body (.plain depth)) :
    Spans (.plain depth) (renderString name ++ ':' :: body) (.plain depth) :=
  (spans_renderString name).append ((spans_neutral (List.forall_mem_singleton.2 (by decide)) depth).append h)

mutual

theorem spans_render (json : Json) (depth : Nat) : Spans (.plain depth) json.render (.plain depth) := by
  match json with
  | .null =>
      have hword : ∀ c ∈ ['n', 'u', 'l', 'l'], Neutral c := by simp [Neutral]
      exact spans_neutral hword depth
  | .bool true =>
      have hword : ∀ c ∈ ['t', 'r', 'u', 'e'], Neutral c := by simp [Neutral]
      exact spans_neutral hword depth
  | .bool false =>
      have hword : ∀ c ∈ ['f', 'a', 'l', 's', 'e'], Neutral c := by simp [Neutral]
      exact spans_neutral hword depth
  | .num n => exact spans_neutral (neutral_renderNumber n) depth
  | .str s => exact spans_renderString s
  | .arr items => exact spans_bracketed (.inl rfl) (.inl rfl) (spans_renderItems items depth)
  | .obj fields => exact spans_bracketed (.inr rfl) (.inr rfl) (spans_renderFields fields depth)

theorem spans_renderItems (items : List Json) (depth : Nat) :
    Spans (.plain (depth + 1)) (renderItems items) (.plain (depth + 1)) := by
  match items with
  | [] => exact .nil _
  | [a] => exact spans_render a (depth + 1)
  | a :: b :: bs =>
      rw [renderItems_cons_cons]
      exact (spans_render a (depth + 1)).append (spans_renderItems (b :: bs) depth).comma

theorem spans_renderFields (fields : List (String × Json)) (depth : Nat) :
    Spans (.plain (depth + 1)) (renderFields fields) (.plain (depth + 1)) := by
  match fields with
  | [] => exact .nil _
  | [(k, a)] => exact spans_field k (spans_render a (depth + 1))
  | (k, a) :: f :: fs =>
      rw [renderFields_cons_cons]
      exact (spans_field k (spans_render a (depth + 1))).append (spans_renderFields (f :: fs) depth).comma

end

end Render

-- Cutting a batch gives the texts back that it was joined from, however deep they nest.
theorem cut_join {texts : List String} (h : ∀ text ∈ texts, ∃ op : Operation, op.text = text) :
    cut (join texts) = texts := by
  by_cases hne : texts = []
  · subst hne
    rfl
  have hspans : ∀ text ∈ texts.map String.toList, Spans (.plain 0) text (.plain 0) := by
    intro text htext
    obtain ⟨_, hmem, rfl⟩ := List.mem_map.1 htext
    obtain ⟨op, rfl⟩ := h _ hmem
    rw [Operation.text, String.toList_ofList]
    exact spans_render (.obj op.fields) 0
  have hpieces : piecesFrom (.plain 0) (join texts).toList = texts.map String.toList := by
    rw [toList_join]
    exact pieces_intercalate (by simpa using hne) hspans
  have hfilled : join texts ≠ "" := by
    intro hempty
    rw [hempty] at hpieces
    have hblank : [] ∈ texts.map String.toList := hpieces ▸ List.mem_cons_self
    obtain ⟨text, htext, hnil⟩ := List.mem_map.1 hblank
    obtain ⟨op, rfl⟩ := h text htext
    rw [Operation.text, String.toList_ofList] at hnil
    cases hnil
  unfold cut
  rw [if_neg hfilled, hpieces, List.map_map]
  simp

theorem join_ne_empty {texts : List String} (hne : texts ≠ [])
    (h : ∀ text ∈ texts, ∃ op : Operation, op.text = text) :
    join texts ≠ "" := by
  intro hempty
  have hcut := cut_join h
  rw [hempty] at hcut
  exact hne hcut.symm

end SceneLink.Batch
