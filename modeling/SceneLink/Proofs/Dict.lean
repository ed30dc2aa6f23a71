import SceneLink.Dict

namespace SceneLink.Dict

theorem mapValues_mapValues {κ α β γ : Type} (f : α → β) (g : β → γ) (d : Dict κ α) :
    (d.mapValues f).mapValues g = d.mapValues (g ∘ f) := List.map_map

section Lookup

variable {κ α β : Type} [DecidableEq κ]

theorem get?_mapValues (f : α → β) (d : Dict κ α) (key : κ) :
    get? (d.mapValues f) key = (d.get? key).map f := by
  induction d with
  | nil => rfl
  | cons entry rest ih =>
      obtain ⟨k, v⟩ := entry
      simp only [mapValues, List.map_cons, get?_cons] at ih ⊢
      split
      · rfl
      · exact ih

theorem get?_append (d e : Dict κ α) (key : κ) : get? (d ++ e) key = (d.get? key).or (e.get? key) := by
  induction d with
  | nil => rfl
  | cons entry rest ih =>
      obtain ⟨k, v⟩ := entry
      rw [List.cons_append, get?_cons, get?_cons, ih]
      split <;> rfl

theorem mem_of_get? {d : Dict κ α} {key : κ} {value : α} (h : d.get? key = some value) :
    (key, value) ∈ d := by
  induction d with
  | nil => cases h
  | cons entry rest ih =>
      obtain ⟨k, v⟩ := entry
      rw [get?_cons] at h
      split at h
      · next hk =>
        rw [hk, Option.some.inj h]
        exact List.mem_cons_self
      · exact List.mem_cons_of_mem _ (ih h)

theorem get?_of_mem {d : Dict κ α} (hd : d.keys.Nodup) {key : κ} {value : α} (h : (key, value) ∈ d) :
    d.get? key = some value := by
  induction d with
  | nil => cases h
  | cons entry rest ih =>
      obtain ⟨hhead, hrest⟩ := List.nodup_cons.1 hd
      rw [get?_cons]
      rcases List.mem_cons.1 h with rfl | h
      · rw [if_pos rfl]
      · have hne : key ≠ entry.1 := fun heq => hhead (heq ▸ List.mem_map.2 ⟨_, h, rfl⟩)
        rw [if_neg hne, ih hrest h]

theorem get?_eq_none_of_forall_ne {d : Dict κ α} {key : κ} (h : ∀ entry ∈ d, entry.1 ≠ key) :
    d.get? key = none := by
  induction d with
  | nil => rfl
  | cons entry rest ih =>
      obtain ⟨k, v⟩ := entry
      have hk : key ≠ k := Ne.symm (h (k, v) List.mem_cons_self)
      rw [get?_cons, if_neg hk]
      exact ih fun entry he => h entry (List.mem_cons_of_mem _ he)

theorem erase_eq_self_of_get?_eq_none {d : Dict κ α} {key : κ} (h : d.get? key = none) :
    d.erase key = d := by
  induction d with
  | nil => rfl
  | cons entry rest ih =>
      obtain ⟨k, v⟩ := entry
      rw [get?_cons] at h
      split at h
      · cases h
      · next hk =>
        unfold erase at ih ⊢
        rw [List.filter_cons_of_pos (by simpa using Ne.symm hk), ih h]

theorem mapValues_erase (f : α → β) (d : Dict κ α) (key : κ) :
    (d.erase key).mapValues f = erase (d.mapValues f) key := by
  simp only [erase, mapValues, List.filter_map]
  rfl

end Lookup

section Sorted

variable {κ α β : Type} [LT κ]

theorem sorted_mapValues {f : α → β} {d : Dict κ α} (hd : d.Sorted) : Sorted (d.mapValues f) := by
  unfold Sorted mapValues at *
  rw [List.pairwise_map]
  exact hd

theorem sorted_of_keys_sublist {d : Dict κ α} {e : Dict κ β} (h : e.keys.Sublist d.keys) (hd : d.Sorted) :
    e.Sorted := by
  have hkeys : d.keys.Pairwise (· < ·) := List.pairwise_map.2 hd
  exact List.pairwise_map.1 (hkeys.sublist h)

theorem sorted_of_keys_eq {d : Dict κ α} {e : Dict κ β} (h : e.keys = d.keys) (hd : d.Sorted) :
    e.Sorted :=
  sorted_of_keys_sublist (h ▸ List.Sublist.refl _) hd

theorem sorted_erase [DecidableEq κ] {d : Dict κ α} (hd : d.Sorted) (key : κ) : (d.erase key).Sorted :=
  List.Pairwise.filter _ hd

end Sorted

section Uniqueness

variable {κ α : Type} [DecidableEq κ] [LT κ] [LE κ] [Std.IsLinearOrder κ] [Std.LawfulOrderLT κ]

omit [Std.IsLinearOrder κ] in
theorem get?_eq_none_of_lt {d : Dict κ α} {key : κ} (h : ∀ entry ∈ d, key < entry.1) :
    d.get? key = none :=
  get?_eq_none_of_forall_ne fun entry he heq => Std.lt_irrefl (heq ▸ h entry he)

theorem eq_of_get?_eq {d e : Dict κ α} (hd : d.Sorted) (he : e.Sorted)
    (h : ∀ key, d.get? key = e.get? key) : d = e := by
  induction d generalizing e with
  | nil =>
      cases e with
      | nil => rfl
      | cons entry rest =>
          have := h entry.1
          rw [get?_cons, if_pos rfl] at this
          cases this
  | cons first rest ih =>
      obtain ⟨k, v⟩ := first
      obtain ⟨hk, hrest⟩ := List.pairwise_cons.1 hd
      cases e with
      | nil =>
          have := h k
          rw [get?_cons, if_pos rfl] at this
          cases this
      | cons other others =>
          obtain ⟨l, w⟩ := other
          obtain ⟨hl, hothers⟩ := List.pairwise_cons.1 he
          -- Each first key occurs in the other dictionary, so neither is less than the other.
          have hkey : k = l := by
            by_cases hne : k = l
            · exact hne
            · have hmem := h k
              have hmem' := h l
              rw [get?_cons, if_pos rfl, get?_cons, if_neg hne] at hmem
              rw [get?_cons, if_neg (Ne.symm hne), get?_cons, if_pos rfl] at hmem'
              have hlt := hl _ (mem_of_get? hmem.symm)
              have hgt := hk _ (mem_of_get? hmem')
              exact absurd (Std.lt_trans hlt hgt) Std.lt_irrefl
          subst hkey
          have hvalue := h k
          rw [get?_cons, if_pos rfl, get?_cons, if_pos rfl] at hvalue
          have htail : rest = others := by
            refine ih hrest hothers fun key => ?_
            have hkey := h key
            rw [get?_cons, get?_cons] at hkey
            by_cases heq : key = k
            · subst heq
              rw [get?_eq_none_of_lt hk, get?_eq_none_of_lt hl]
            · rwa [if_neg heq, if_neg heq] at hkey
          rw [Option.some.inj hvalue, htail]

end Uniqueness

section Order

variable {κ α β : Type} [DecidableEq κ] [LT κ] [DecidableLT κ]

theorem mapValues_insert (f : α → β) (d : Dict κ α) (key : κ) (value : α) :
    (d.insert key value).mapValues f = insert (d.mapValues f) key (f value) := by
  induction d with
  | nil => rfl
  | cons entry rest ih =>
      obtain ⟨k, v⟩ := entry
      simp only [mapValues, List.map_cons] at ih ⊢
      unfold insert
      split
      · rfl
      · split
        · rfl
        · simp only [List.map_cons, ih]

theorem mem_insert {d : Dict κ α} {key : κ} {value : α} {entry : κ × α}
    (h : entry ∈ d.insert key value) : entry = (key, value) ∨ entry ∈ d := by
  induction d with
  | nil => exact .inl (List.mem_singleton.1 h)
  | cons first rest ih =>
      obtain ⟨k, v⟩ := first
      unfold insert at h
      grind

theorem mem_insert_key {d : Dict κ α} {key : κ} {value : α} {entry : κ × α}
    (h : entry ∈ d.insert key value) : entry.1 = key ∨ entry ∈ d := by
  induction d with
  | nil => exact .inl (by simp_all [insert])
  | cons first rest ih =>
      obtain ⟨k, v⟩ := first
      unfold insert at h
      grind

theorem erase_insert_of_get?_eq_none {d : Dict κ α} {key : κ} (h : d.get? key = none) (value : α) :
    (d.insert key value).erase key = d := by
  induction d with
  | nil => simp [insert, erase]
  | cons entry rest ih =>
      obtain ⟨k, v⟩ := entry
      have herase := erase_eq_self_of_get?_eq_none h
      have hne : key ≠ k := by
        rintro rfl
        rw [get?_cons, if_pos rfl] at h
        cases h
      rw [get?_cons, if_neg hne] at h
      unfold insert
      rw [if_neg hne]
      unfold erase at ih herase ⊢
      split
      · rwa [List.filter_cons_of_neg (by simp)]
      · rw [List.filter_cons_of_pos (by simpa using Ne.symm hne), ih h]

theorem get?_insertAll_of_forall_ne {d : Dict κ α} {pairs : List (κ × α)} {key : κ}
    (h : ∀ pair ∈ pairs, pair.1 ≠ key) : (d.insertAll pairs).get? key = d.get? key := by
  induction pairs generalizing d with
  | nil => rfl
  | cons pair rest ih =>
      have hp : key ≠ pair.1 := Ne.symm (h pair List.mem_cons_self)
      have hrest := ih (d := d.insert pair.1 pair.2) fun p hp => h p (List.mem_cons_of_mem _ hp)
      simp only [insertAll, List.foldl_cons] at hrest ⊢
      rw [hrest, get?_insert, if_neg hp]

theorem insertAll_pairs (d : Dict κ α) (pairs more : List (κ × α)) :
    d.insertAll (pairs ++ more) = (d.insertAll pairs).insertAll more := List.foldl_append

theorem mem_insertAll {pairs d : Dict κ α} {entry : κ × α} (h : entry ∈ d.insertAll pairs) :
    entry ∈ d ∨ entry ∈ pairs := by
  induction pairs generalizing d with
  | nil => exact .inl h
  | cons pair rest ih =>
      rcases ih h with h | h
      · rcases mem_insert h with rfl | h
        · exact .inr List.mem_cons_self
        · exact .inl h
      · exact .inr (List.mem_cons_of_mem _ h)

theorem mem_of_mem_ofList {pairs : Dict κ α} {entry : κ × α} (h : entry ∈ ofList pairs) : entry ∈ pairs :=
  (mem_insertAll h).resolve_left List.not_mem_nil

theorem get?_insertAll_of_nodup {pairs : Dict κ α} (hpairs : pairs.keys.Nodup) (d : Dict κ α) (key : κ) :
    (d.insertAll pairs).get? key = (pairs.get? key).or (d.get? key) := by
  induction pairs generalizing d with
  | nil => rfl
  | cons pair rest ih =>
      obtain ⟨k, v⟩ := pair
      obtain ⟨hk, hrest⟩ := List.nodup_cons.1 hpairs
      have hstep := ih hrest (d.insert k v)
      rw [get?_insert] at hstep
      rw [get?_cons]
      refine hstep.trans ?_
      split
      · next heq =>
        have hnone : get? rest key = none := get?_eq_none_of_forall_ne fun entry he hkey =>
          hk (List.mem_map.2 ⟨entry, he, hkey.trans heq⟩)
        rw [hnone]
        rfl
      · rfl

theorem get?_ofList_of_nodup {pairs : Dict κ α} (hpairs : pairs.keys.Nodup) (key : κ) :
    (ofList pairs).get? key = pairs.get? key :=
  (get?_insertAll_of_nodup hpairs [] key).trans Option.or_none

-- Where a pair is the only one of its key, its value is found.
theorem get?_ofList_cons {key : κ} {value : α} {pairs : List (κ × α)}
    (h : ∀ pair ∈ pairs, pair.1 ≠ key) : (ofList ((key, value) :: pairs)).get? key = some value := by
  have := get?_insertAll_of_forall_ne (d := insert [] key value) h
  simp only [ofList, insertAll, List.foldl_cons] at this ⊢
  rw [this, get?_insert, if_pos rfl]

theorem insert_insert (d : Dict κ α) (key : κ) (first second : α) :
    (d.insert key first).insert key second = d.insert key second := by
  induction d with
  | nil => simp [insert]
  | cons entry rest ih =>
      obtain ⟨k, v⟩ := entry
      by_cases heq : key = k
      · simp [insert, heq]
      · by_cases hlt : key < k
        · simp [insert, heq, hlt]
        · simp only [insert, if_neg heq, if_neg hlt, ih]

theorem mapValues_insertAll (f : α → β) (d pairs : Dict κ α) :
    (d.insertAll pairs).mapValues f = insertAll (d.mapValues f) (pairs.mapValues f) := by
  induction pairs generalizing d with
  | nil => rfl
  | cons pair rest ih =>
      have hrest := ih (d.insert pair.1 pair.2)
      rw [mapValues_insert] at hrest
      exact hrest

variable [LE κ] [Std.IsLinearOrder κ] [Std.LawfulOrderLT κ]

theorem sorted_insert {d : Dict κ α} (hd : d.Sorted) (key : κ) (value : α) :
    (d.insert key value).Sorted := by
  induction d with
  | nil => exact List.pairwise_singleton _ _
  | cons entry rest ih =>
      obtain ⟨k, v⟩ := entry
      obtain ⟨hk, hrest⟩ := List.pairwise_cons.1 hd
      unfold insert
      split
      · next h => subst h; exact List.pairwise_cons.2 ⟨hk, hrest⟩
      · next hne =>
        split
        · next hlt =>
          refine List.pairwise_cons.2 ⟨fun other hother => ?_, hd⟩
          rcases List.mem_cons.1 hother with rfl | hother
          · exact hlt
          · exact Std.lt_trans hlt (hk other hother)
        · next hnlt =>
          refine List.pairwise_cons.2 ⟨fun other hother => ?_, ih hrest⟩
          have hgt : k < key := by
            rcases Std.lt_trichotomy key k with h | h | h
            · exact absurd h hnlt
            · exact absurd h hne
            · exact h
          rcases mem_insert_key hother with hother | hother
          · rw [hother]; exact hgt
          · exact hk other hother

theorem insert_eq_self {d : Dict κ α} (hd : d.Sorted) {key : κ} {value : α}
    (h : d.get? key = some value) : d.insert key value = d := by
  refine eq_of_get?_eq (sorted_insert hd key value) hd fun other => ?_
  rw [get?_insert]
  split
  · next heq => rw [heq, h]
  · rfl

theorem sorted_insertAll {d : Dict κ α} (hd : d.Sorted) (pairs : List (κ × α)) :
    (d.insertAll pairs).Sorted := by
  induction pairs generalizing d with
  | nil => exact hd
  | cons pair rest ih => exact ih (sorted_insert hd pair.1 pair.2)

theorem sorted_ofList (pairs : List (κ × α)) : (ofList pairs).Sorted :=
  sorted_insertAll List.Pairwise.nil pairs

theorem insert_append {d : Dict κ α} {key : κ} (value : α) (h : ∀ entry ∈ d, entry.1 < key) :
    d.insert key value = d ++ [(key, value)] := by
  induction d with
  | nil => rfl
  | cons entry rest ih =>
      obtain ⟨k, v⟩ := entry
      have hk : k < key := h (k, v) List.mem_cons_self
      have hne : key ≠ k := fun e => Std.lt_irrefl (e ▸ hk)
      have hnlt : ¬ key < k := fun hlt => Std.lt_irrefl (Std.lt_trans hk hlt)
      have hrest := ih fun entry he => h entry (List.mem_cons_of_mem _ he)
      unfold insert
      rw [if_neg hne, if_neg hnlt, hrest]
      rfl

theorem insertAll_append {pairs d : Dict κ α} (hd : Sorted (d ++ pairs)) :
    d.insertAll pairs = d ++ pairs := by
  induction pairs generalizing d with
  | nil => simp [insertAll]
  | cons pair rest ih =>
      have hlast : ∀ entry ∈ d, entry.1 < pair.1 := fun entry he =>
        (List.pairwise_append.1 hd).2.2 entry he pair List.mem_cons_self
      have hstep : d.insert pair.1 pair.2 = d ++ [pair] := insert_append pair.2 hlast
      have happ : Sorted ((d ++ [pair]) ++ rest) := by simpa using hd
      have := ih happ
      simp only [insertAll, List.foldl_cons] at this ⊢
      rw [hstep, this]
      simp

theorem ofList_eq_self {d : Dict κ α} (hd : d.Sorted) : ofList d = d :=
  insertAll_append (d := []) hd

omit [Std.IsLinearOrder κ] in
-- A key occurs once in a sorted list of pairs, so the order of insertion does not matter.
theorem get?_insertAll {pairs : Dict κ α} (hpairs : pairs.Sorted) (d : Dict κ α) (key : κ) :
    (d.insertAll pairs).get? key = (pairs.get? key).or (d.get? key) := by
  induction pairs generalizing d with
  | nil => rfl
  | cons pair rest ih =>
      obtain ⟨k, v⟩ := pair
      obtain ⟨hk, hrest⟩ := List.pairwise_cons.1 hpairs
      have hstep := ih hrest (d.insert k v)
      rw [get?_insert] at hstep
      rw [get?_cons]
      refine hstep.trans ?_
      split
      · next h =>
        subst h
        rw [get?_eq_none_of_lt hk]
        rfl
      · rfl

end Order

section Reading

variable {κ α β γ : Type}

theorem mapValues?_mapValues {read : β → Option γ} {write : α → β} {f : α → γ} {d : Dict κ α}
    (h : ∀ entry ∈ d, read (write entry.2) = some (f entry.2)) :
    mapValues? read (d.mapValues write) = some (d.mapValues f) := by
  induction d with
  | nil => rfl
  | cons entry rest ih =>
      have hrest := ih fun other ho => h other (List.mem_cons_of_mem _ ho)
      unfold mapValues at hrest ⊢
      rw [List.map_cons, List.map_cons, mapValues?, h entry List.mem_cons_self, hrest]
      rfl

theorem of_mapValues? {read : β → Option γ} {d : Dict κ β} {e : Dict κ γ} (h : mapValues? read d = some e) :
    e.keys = d.keys ∧ ∀ entry ∈ e, ∃ key value, (key, value) ∈ d ∧ read value = some entry.2 := by
  induction d generalizing e with
  | nil =>
      cases h
      exact ⟨rfl, fun _ h => nomatch h⟩
  | cons first rest ih =>
      obtain ⟨k, v⟩ := first
      obtain ⟨w, hw, h⟩ := Option.bind_eq_some_iff.1 h
      obtain ⟨others, hothers, h⟩ := Option.bind_eq_some_iff.1 h
      obtain ⟨hkeys, hvalues⟩ := ih hothers
      rw [← Option.some.inj h]
      refine ⟨congrArg (List.cons k) hkeys, List.forall_mem_cons.2
        ⟨⟨k, v, List.mem_cons_self, hw⟩, fun entry he => ?_⟩⟩
      obtain ⟨key, value, hmem, hread⟩ := hvalues entry he
      exact ⟨key, value, List.mem_cons_of_mem _ hmem, hread⟩

end Reading

end SceneLink.Dict
