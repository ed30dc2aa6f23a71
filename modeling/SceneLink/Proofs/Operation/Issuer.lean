import SceneLink.Operation.Issuer
import SceneLink.Proofs.Text.Numeral

namespace SceneLink.Issuer

-- What follows the last mark determines the whole.
theorem tail_eq {c : Char} {as bs ds es : List Char} (hds : c ∉ ds) (hes : c ∉ es)
    (h : as ++ c :: ds = bs ++ c :: es) : ds = es := by
  induction as generalizing bs with
  | nil =>
      cases bs with
      | nil => exact List.tail_eq_of_cons_eq h
      | cons b bs =>
          have : c ∈ ds := by
            rw [List.tail_eq_of_cons_eq h]
            simp
          exact absurd this hds
  | cons a as ih =>
      cases bs with
      | nil =>
          have : c ∈ es := by
            rw [← List.tail_eq_of_cons_eq h]
            simp
          exact absurd this hes
      | cons b bs => exact ih (List.tail_eq_of_cons_eq h)

theorem idFor_injective {kind other : String} {m n : Nat} (h : idFor kind m = idFor other n) :
    m = n := by
  have hchars := congrArg String.toList h
  unfold idFor at hchars
  simp only [String.toList_append, String.toList_ofList, List.append_assoc] at hchars
  have hdigits := tail_eq Nat.underscore_not_in_toDigits Nat.underscore_not_in_toDigits hchars
  have hnumber := congrArg Text.ofDigits hdigits
  rwa [Text.ofDigits_toDigits, Text.ofDigits_toDigits] at hnumber

theorem idFor_ne_empty (kind : String) (n : Nat) : idFor kind n ≠ "" := by
  intro h
  have hchars := congrArg String.toList h
  unfold idFor at hchars
  simp at hchars

section IssueAll

variable {issuer : Issuer} {kinds : List String}

theorem issueAll_cons (issuer : Issuer) (kind : String) (kinds : List String) :
    issuer.issueAll (kind :: kinds) = (idFor kind issuer.issued :: ((issuer.issue kind).2.issueAll kinds).1,
      ((issuer.issue kind).2.issueAll kinds).2) := rfl

theorem mem_issueAll {id : String} (h : id ∈ (issuer.issueAll kinds).1) :
    ∃ kind n, id = idFor kind n ∧ issuer.issued ≤ n := by
  induction kinds generalizing issuer with
  | nil => cases h
  | cons kind kinds ih =>
      rw [issueAll_cons] at h
      rcases List.mem_cons.1 h with rfl | hrest
      · exact ⟨kind, issuer.issued, rfl, Nat.le_refl _⟩
      · obtain ⟨other, n, hid, hn⟩ := ih hrest
        have hnext : issuer.issued + 1 ≤ n := hn
        exact ⟨other, n, hid, Nat.le_of_succ_le hnext⟩

theorem nodup_issueAll (issuer : Issuer) (kinds : List String) : (issuer.issueAll kinds).1.Nodup := by
  induction kinds generalizing issuer with
  | nil => exact .nil
  | cons kind kinds ih =>
      rw [issueAll_cons]
      refine List.nodup_cons.2 ⟨fun hmem => ?_, ih _⟩
      obtain ⟨other, n, hid, hn⟩ := mem_issueAll hmem
      have hnumber : issuer.issued = n := idFor_injective hid
      have hnext : issuer.issued + 1 ≤ n := hn
      omega

end IssueAll

section Words

variable {count : UInt64} {kinds : List String}

-- The same with a word of 64 bits for the count.
def issueWords (count : UInt64) : List String → List String × UInt64
  | [] => ([], count)
  | kind :: kinds =>
    let (ids, next) := issueWords (count + 1) kinds
    (idFor kind count.toNat :: ids, next)

-- A word does not overflow as long as fewer than `2 ^ 64` identifiers are issued.
theorem issueWords_eq (hbound : count.toNat + kinds.length < 2 ^ 64) :
    issueWords count kinds =
      ((issueAll ⟨count.toNat⟩ kinds).1, UInt64.ofNat (issueAll ⟨count.toNat⟩ kinds).2.issued) := by
  induction kinds generalizing count with
  | nil => simp [issueWords, issueAll]
  | cons kind kinds ih =>
      rw [List.length_cons] at hbound
      have hnext : (count + 1).toNat = count.toNat + 1 := by
        rw [UInt64.toNat_add]
        exact Nat.mod_eq_of_lt (by simp; omega)
      have hbelow : (count + 1).toNat + kinds.length < 2 ^ 64 := by omega
      have hrest := ih hbelow
      rw [hnext] at hrest
      rw [issueAll_cons, issueWords, hrest]
      rfl

theorem nodup_issueWords (hbound : kinds.length < 2 ^ 64) : (issueWords 0 kinds).1.Nodup := by
  have hzero : (0 : UInt64).toNat + kinds.length < 2 ^ 64 := by simpa using hbound
  rw [issueWords_eq hzero]
  exact nodup_issueAll _ kinds

end Words

end SceneLink.Issuer
