import SceneLink.Text.Numeral

namespace SceneLink.Text

def Digits (cs : List Char) : Prop := ∀ c ∈ cs, isDigit c = true

def NoDigit (rest : List Char) : Prop := ∀ c ∈ rest.head?, isDigit c = false

theorem noDigit_cons {c : Char} {rest : List Char} (h : isDigit c = false) : NoDigit (c :: rest) := by
  intro d hd
  cases hd
  exact h

theorem digits_append {as bs : List Char} (ha : Digits as) (hb : Digits bs) : Digits (as ++ bs) :=
  fun c hc => (List.mem_append.1 hc).elim (ha c) (hb c)

theorem digits_replicate (n : Nat) : Digits (List.replicate n '0') := by
  intro c hc
  rw [List.eq_of_mem_replicate hc]
  rfl

theorem digits_take {cs : List Char} (h : Digits cs) (n : Nat) : Digits (cs.take n) :=
  fun c hc => h c (List.mem_of_mem_take hc)

theorem digits_drop {cs : List Char} (h : Digits cs) (n : Nat) : Digits (cs.drop n) :=
  fun c hc => h c (List.mem_of_mem_drop hc)

theorem isDigit_eq (c : Char) : isDigit c = c.isDigit := rfl

theorem digits_toDigits (n : Nat) : Digits (Nat.toDigits 10 n) := fun c hc =>
  (isDigit_eq c).trans (Nat.isDigit_of_mem_toDigits (by decide) (by decide) hc)

theorem spanDigits_append {ds rest : List Char} (hds : Digits ds) (hrest : NoDigit rest) :
    spanDigits (ds ++ rest) = (ds, rest) := by
  unfold spanDigits
  rw [List.takeWhile_append_of_pos hds, List.dropWhile_append_of_pos hds]
  cases rest with
  | nil => simp
  | cons c cs =>
      have hc : isDigit c = false := hrest c rfl
      simp [hc]

theorem ofDigits_toDigits (n : Nat) : ofDigits (Nat.toDigits 10 n) = n :=
  Nat.ofDigitChars_ten_toDigits

theorem head?_toDigits {n : Nat} (h : n ≠ 0) : ∀ c ∈ (Nat.toDigits 10 n).head?, c ≠ '0' := by
  induction n using Nat.strongRecOn with
  | ind n ih =>
      rw [Nat.toDigits_eq_if (by decide)]
      split
      · intro c hc hzero
        cases hc
        exact h (Nat.digitChar_eq_zero.1 hzero)
      · next hlarge =>
        intro c hc
        apply ih (n / 10) (by omega) (by omega) c
        obtain ⟨d, ds, hds⟩ := List.exists_cons_of_ne_nil (Nat.toDigits_ne_nil (n := n / 10) (b := 10))
        rw [hds] at hc ⊢
        exact hc

theorem allDigits?_eq_some {digits : List Char} {n : Nat} :
    allDigits? digits = some n ↔ digits ≠ [] ∧ Digits digits ∧ ofDigits digits = n := by
  have hall : digits.all isDigit = true ↔ Digits digits := List.all_eq_true
  unfold allDigits?
  rw [← and_assoc, ← hall]
  split
  · next h => simp only [Option.some.injEq, h, ne_eq, not_false_eq_true, and_self, true_and]
  · next h => simp only [h, false_and, reduceCtorEq]

theorem splitSign_spec (cs : List Char) : ∃ sign ∈ [[], ['+'], ['-']], ∃ digits,
    cs = sign ++ digits ∧ splitSign cs = (decide (sign = ['-']), digits) := by
  unfold splitSign
  split
  · exact ⟨['-'], by simp, _, rfl, rfl⟩
  · exact ⟨['+'], by simp, _, rfl, rfl⟩
  · exact ⟨[], by simp, _, rfl, rfl⟩

theorem noSign_of_digits {ds : List Char} (h : Digits ds) : ∀ c ∈ ds.head?, c ≠ '-' ∧ c ≠ '+' := by
  intro c hc
  have hdigit := h c (List.mem_of_mem_head? hc)
  constructor <;>
    · rintro rfl
      exact absurd hdigit (by decide)

theorem splitSign_append {sign body : List Char} (hsign : sign ∈ [[], ['+'], ['-']])
    (hbody : ∀ c ∈ body.head?, c ≠ '-' ∧ c ≠ '+') :
    splitSign (sign ++ body) = (decide (sign = ['-']), body) := by
  simp only [List.mem_cons, List.not_mem_nil, or_false] at hsign
  rcases hsign with rfl | rfl | rfl
  · unfold splitSign
    rw [List.nil_append]
    split
    · exact absurd rfl (hbody '-' rfl).1
    · exact absurd rfl (hbody '+' rfl).2
    · rfl
  · rfl
  · rfl

end SceneLink.Text
