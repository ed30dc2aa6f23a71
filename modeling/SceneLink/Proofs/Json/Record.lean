import SceneLink.Json.Record
import SceneLink.Proofs.Json.RoundTrip

namespace SceneLink

namespace Json

section Parts

variable {α : Type}

theorem sorted_of_mem_items {items : List Json} {json : Json} (h : SortedItems items)
    (hmem : json ∈ items) : json.Sorted := by
  induction items with
  | nil => cases hmem
  | cons first rest ih =>
      rcases List.mem_cons.1 hmem with rfl | hmem
      · exact h.1
      · exact ih h.2 hmem

theorem sorted_of_mem_fields {fields : List (String × Json)} {name : String} {json : Json}
    (h : SortedFields fields) (hmem : (name, json) ∈ fields) : json.Sorted := by
  induction fields with
  | nil => cases hmem
  | cons first rest ih =>
      obtain ⟨key, held⟩ := first
      rcases List.mem_cons.1 hmem with heq | hmem
      · cases heq
        exact h.1
      · exact ih h.2 hmem

theorem sortedItems_map {write : α → Json} {as : List α} (h : ∀ a ∈ as, (write a).Sorted) :
    SortedItems (as.map write) := by
  induction as with
  | nil => trivial
  | cons a as ih => exact ⟨h a List.mem_cons_self, ih fun b hb => h b (List.mem_cons_of_mem _ hb)⟩

theorem exactItems_map {write : α → Json} {as : List α} (h : ∀ a ∈ as, (write a).Exact) :
    ExactItems (as.map write) := by
  induction as with
  | nil => trivial
  | cons a as ih => exact ⟨h a List.mem_cons_self, ih fun b hb => h b (List.mem_cons_of_mem _ hb)⟩

theorem sortedFields_of_forall {fields : List (String × Json)} (h : ∀ field ∈ fields, field.2.Sorted) :
    SortedFields fields := by
  induction fields with
  | nil => trivial
  | cons field rest ih =>
      exact ⟨h field List.mem_cons_self, ih fun other ho => h other (List.mem_cons_of_mem _ ho)⟩

theorem exactFields_of_forall {fields : List (String × Json)} (h : ∀ field ∈ fields, field.2.Exact) :
    ExactFields fields := by
  induction fields with
  | nil => trivial
  | cons field rest ih =>
      exact ⟨h field List.mem_cons_self, ih fun other ho => h other (List.mem_cons_of_mem _ ho)⟩

theorem sorted_ofFields {pairs : List (String × Json)} (h : ∀ pair ∈ pairs, pair.2.Sorted) :
    (ofFields pairs).Sorted :=
  ⟨Dict.sorted_ofList pairs, sortedFields_of_forall fun _ he => h _ (Dict.mem_of_mem_ofList he)⟩

theorem exact_ofFields {pairs : List (String × Json)} (h : ∀ pair ∈ pairs, pair.2.Exact) :
    (ofFields pairs).Exact :=
  exactFields_of_forall fun _ he => h _ (Dict.mem_of_mem_ofList he)

theorem sorted_record {d : Dict String α} {write : α → Json} (hd : d.Sorted)
    (h : ∀ entry ∈ d, (write entry.2).Sorted) : (record (d.mapValues write)).Sorted := by
  refine ⟨Dict.sorted_mapValues hd, sortedFields_of_forall fun field hf => ?_⟩
  obtain ⟨entry, he, rfl⟩ := List.mem_map.1 hf
  exact h entry he

theorem exact_record {d : Dict String α} {write : α → Json} (h : ∀ entry ∈ d, (write entry.2).Exact) :
    (record (d.mapValues write)).Exact := by
  refine exactFields_of_forall fun field hf => ?_
  obtain ⟨entry, he, rfl⟩ := List.mem_map.1 hf
  exact h entry he

end Parts

section Slots

-- The fields of a record by name, in the order in which they are written; absent ones are left out.
def written (slots : List (String × Option Json)) : List (String × Json) :=
  slots.flatMap fun slot => present slot.1 slot.2

theorem mem_written {slots : List (String × Option Json)} {field : String × Json} :
    field ∈ written slots ↔ (field.1, some field.2) ∈ slots := by
  obtain ⟨name, value⟩ := field
  unfold written
  rw [List.mem_flatMap]
  constructor
  · rintro ⟨⟨key, held⟩, hslot, hfield⟩
    cases held with
    | none => cases hfield
    | some held =>
        cases List.mem_singleton.1 hfield
        exact hslot
  · intro hslot
    exact ⟨(name, some value), hslot, List.mem_singleton.2 rfl⟩

theorem keys_written_sublist (slots : List (String × Option Json)) :
    (Dict.keys (written slots)).Sublist (slots.map Prod.fst) := by
  induction slots with
  | nil => exact List.Sublist.refl _
  | cons slot rest ih =>
      obtain ⟨name, value⟩ := slot
      cases value with
      | none => exact ih.cons name
      | some value => exact ih.cons_cons name

theorem get?_written {slots : List (String × Option Json)} (hslots : (slots.map Prod.fst).Nodup)
    (name : String) : (Dict.ofList (written slots)).get? name = (Dict.get? slots name).join := by
  rw [Dict.get?_ofList_of_nodup (hslots.sublist (keys_written_sublist slots))]
  induction slots with
  | nil => rfl
  | cons slot rest ih =>
      obtain ⟨key, value⟩ := slot
      obtain ⟨hkey, hrest⟩ := List.nodup_cons.1 hslots
      change Dict.get? (present key value ++ written rest) name = _
      rw [Dict.get?_append, Dict.get?_cons, ih hrest]
      cases value with
      | none =>
          rw [present, Dict.get?, Option.none_or]
          split
          · next heq =>
            have hnone : Dict.get? rest name = none := Dict.get?_eq_none_of_forall_ne fun other ho hname =>
              hkey (List.mem_map.2 ⟨other, ho, hname.trans heq⟩)
            rw [hnone]
            rfl
          · rfl
      | some value =>
          rw [present, Dict.get?_cons]
          split
          · rfl
          · rw [Dict.get?, Option.none_or]

-- What a reader finds of them.
def fieldsOf (slots : List (String × Option Json)) : Fields := fun name => (Dict.get? slots name).join

theorem record?_written (names : List String) (slots : List (String × Option Json))
    (hslots : (slots.map Prod.fst).Nodup) :
    (ofFields (written slots)).record? names = some (fieldsOf slots) := by
  have hget := get?_written hslots
  unfold ofFields record?
  dsimp only
  rw [funext hget]
  rfl

theorem sorted_written {slots : List (String × Option Json)}
    (h : ∀ slot ∈ slots, ∀ value ∈ slot.2, value.Sorted) : (ofFields (written slots)).Sorted :=
  sorted_ofFields fun _ hp => h _ (mem_written.1 hp) _ rfl

theorem exact_written {slots : List (String × Option Json)}
    (h : ∀ slot ∈ slots, ∀ value ∈ slot.2, value.Exact) : (ofFields (written slots)).Exact :=
  exact_ofFields fun _ hp => h _ (mem_written.1 hp) _ rfl

end Slots

namespace Fields

variable {α : Type} {fields : Fields} {name : String}

theorem required_eq {read : Json → Option α} {value : Json} {a : α} (h : fields name = some value)
    (hread : read value = some a) : fields.required name read = some a := by
  rw [required, h, Option.bind_some, hread]

-- What may be left out is the default, and what is written is read.
theorem withDefault_eq {read : Json → Option α} {default a : α} {value : Option Json}
    (h : fields name = value) (habsent : value = none → a = default)
    (hread : ∀ json ∈ value, read json = some a) : fields.withDefault name default read = some a := by
  unfold withDefault
  rw [h]
  cases value with
  | none => exact congrArg some (habsent rfl).symm
  | some json => exact hread json rfl

theorem optional_eq {read : Json → Option α} (write : α → Json) {a : Option α}
    (h : fields name = a.map write) (hread : ∀ b ∈ a, (write b).isNull = false ∧ read (write b) = some b) :
    fields.optional name read = some a := by
  unfold optional
  rw [h]
  cases a with
  | none => rfl
  | some b =>
      obtain ⟨hnull, hb⟩ := hread b rfl
      rw [Option.map_some]
      split
      · next heq => cases heq
      · next heq =>
        rw [Option.some.inj heq] at hnull
        cases hnull
      · next heq =>
        rw [← Option.some.inj heq, hb]
        rfl

-- Data of a field that is null is read as absent.
theorem optional_some (value : Option Json) (h : fields name = value) :
    fields.optional name some = some (value.filter fun json => !json.isNull) := by
  unfold optional
  rw [h]
  cases value with
  | none => rfl
  | some json => cases json <;> rfl

theorem of_withDefault {read : Json → Option α} {default a : α}
    (h : fields.withDefault name default read = some a) :
    a = default ∨ ∃ value, fields name = some value ∧ read value = some a := by
  unfold withDefault at h
  split at h
  · exact .inl (Option.some.inj h).symm
  · next value hvalue => exact .inr ⟨value, hvalue, h⟩

-- Every field of a record is one of its parts.
theorem sorted_of_record? {json : Json} {names : List String} (hjson : json.Sorted)
    (h : json.record? names = some fields) {value : Json} (hvalue : fields name = some value) :
    value.Sorted := by
  unfold record? at h
  split at h
  · next pairs =>
    rw [← Option.some.inj h] at hvalue
    exact sorted_of_mem_fields hjson.2 (Dict.mem_of_get? hvalue)
  · next items =>
    split at h
    · rw [← Option.some.inj h] at hvalue
      exact sorted_of_mem_items hjson (List.of_mem_zip (Dict.mem_of_get? hvalue)).2
    · cases h
  · cases h

end Fields

-- A dictionary of values that are each read as they were is read as it was.
theorem dictOf?_mapValues {α : Type} {read : Json → Option α} {write : α → Json} {d : Dict String α}
    (h : ∀ entry ∈ d, read (write entry.2) = some entry.2) :
    dictOf? read (record (d.mapValues write)) = some d :=
  (Dict.mapValues?_mapValues (f := fun value => value) h).trans (congrArg some (List.map_id' d))

theorem exists_of_mem_mapM {α β : Type} {read : α → Option β} {items : List α} {as : List β}
    (h : items.mapM read = some as) {a : β} (ha : a ∈ as) : ∃ item ∈ items, read item = some a := by
  induction items generalizing as with
  | nil =>
      cases h
      cases ha
  | cons item rest ih =>
      rw [List.mapM_cons] at h
      obtain ⟨first, hfirst, h⟩ := Option.bind_eq_some_iff.1 h
      obtain ⟨others, hothers, h⟩ := Option.bind_eq_some_iff.1 h
      rw [← Option.some.inj h] at ha
      rcases List.mem_cons.1 ha with rfl | ha
      · exact ⟨item, List.mem_cons_self, hfirst⟩
      · obtain ⟨other, ho, hread⟩ := ih hothers ha
        exact ⟨other, List.mem_cons_of_mem _ ho, hread⟩

section Reading

variable {α : Type} {read : Json → Option α} {json : Json}

-- What was read of an object has its names, and each value was read of a part of it.
theorem of_dictOf? {d : Dict String α} (h : dictOf? read json = some d) (hjson : json.Sorted) :
    d.Sorted ∧ ∀ entry ∈ d, ∃ value : Json, value.Sorted ∧ read value = some entry.2 := by
  obtain ⟨fields, hfields, hread⟩ := Option.bind_eq_some_iff.1 h
  have hobj : json = .obj fields := by
    cases json <;> cases hfields
    rfl
  rw [hobj] at hjson
  obtain ⟨hkeys, hvalues⟩ := Dict.of_mapValues? hread
  refine ⟨Dict.sorted_of_keys_eq hkeys hjson.1, fun entry he => ?_⟩
  obtain ⟨name, value, hmem, hvalue⟩ := hvalues entry he
  exact ⟨value, sorted_of_mem_fields hjson.2 hmem, hvalue⟩

theorem of_listOf? {as : List α} (h : listOf? read json = some as) (hjson : json.Sorted) :
    ∀ a ∈ as, ∃ value : Json, value.Sorted ∧ read value = some a := by
  obtain ⟨items, hitems, hread⟩ := Option.bind_eq_some_iff.1 h
  have harr : json = .arr items := by
    cases json <;> cases hitems
    rfl
  rw [harr] at hjson
  intro a ha
  obtain ⟨value, hmem, hvalue⟩ := exists_of_mem_mapM hread ha
  exact ⟨value, sorted_of_mem_items hjson hmem, hvalue⟩

end Reading

theorem listOf?_map {α β : Type} {read : Json → Option β} {write : α → Json} {f : α → β} {as : List α}
    (h : ∀ a ∈ as, read (write a) = some (f a)) : listOf? read (.arr (as.map write)) = some (as.map f) := by
  unfold listOf? items?
  rw [Option.bind_some]
  induction as with
  | nil => rfl
  | cons a as ih =>
      have has := ih fun b hb => h b (List.mem_cons_of_mem _ hb)
      rw [List.map_cons, List.mapM_cons, h a List.mem_cons_self, has]
      rfl

end Json

end SceneLink
