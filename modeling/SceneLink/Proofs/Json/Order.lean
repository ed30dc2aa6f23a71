import SceneLink.Motion.Lerp
import SceneLink.Proofs.Json.Reading
import SceneLink.Proofs.Json.Record

namespace SceneLink.Json

variable {json value : Json} {items : List Json} {fields : List (String × Json)}

theorem sorted_arr : (arr items).Sorted ↔ ∀ item ∈ items, item.Sorted :=
  ⟨fun h _ hmem => sorted_of_mem_items h hmem, fun h => List.map_id items ▸ sortedItems_map h⟩

theorem sorted_obj : (obj fields).Sorted ↔ Dict.Sorted fields ∧ ∀ field ∈ fields, field.2.Sorted :=
  and_congr_right fun _ => ⟨fun h _ hmem => sorted_of_mem_fields h hmem, sortedFields_of_forall⟩

section Parts

theorem sorted_of_get? {name : String} (h : (obj fields).Sorted) (hget : Dict.get? fields name = some value) :
    value.Sorted :=
  (sorted_obj.1 h).2 _ (Dict.mem_of_get? hget)

theorem sorted_insert {name : String} (h : (obj fields).Sorted) (hvalue : value.Sorted) :
    (obj (Dict.insert fields name value)).Sorted := by
  obtain ⟨hkeys, hfields⟩ := sorted_obj.1 h
  refine sorted_obj.2 ⟨Dict.sorted_insert hkeys name value, fun field hmem => ?_⟩
  rcases Dict.mem_insert hmem with rfl | hmem
  · exact hvalue
  · exact hfields field hmem

theorem sorted_insertAll {more : Dict String Json} (h : (obj fields).Sorted) (hmore : (obj more).Sorted) :
    (obj (Dict.insertAll fields more)).Sorted := by
  obtain ⟨hkeys, hfields⟩ := sorted_obj.1 h
  refine sorted_obj.2 ⟨Dict.sorted_insertAll hkeys more, fun field hmem => ?_⟩
  rcases Dict.mem_insertAll hmem with hmem | hmem
  · exact hfields field hmem
  · exact (sorted_obj.1 hmore).2 field hmem

theorem sorted_erase (h : (obj fields).Sorted) (name : String) : (obj (Dict.erase fields name)).Sorted := by
  obtain ⟨hkeys, hfields⟩ := sorted_obj.1 h
  exact sorted_obj.2 ⟨Dict.sorted_erase hkeys name, fun field hmem => hfields field (List.mem_filter.1 hmem).1⟩

theorem sorted_set (h : (arr items).Sorted) (index : Nat) (hvalue : value.Sorted) :
    (arr (items.set index value)).Sorted := by
  refine sorted_arr.2 fun item hmem => ?_
  rcases List.mem_or_eq_of_mem_set hmem with hmem | rfl
  · exact sorted_arr.1 h item hmem
  · exact hvalue

theorem sorted_of_subset {more : List Json} (h : (arr items).Sorted) (hsub : more ⊆ items) : (arr more).Sorted :=
  sorted_arr.2 fun item hmem => sorted_arr.1 h item (hsub hmem)

theorem sorted_append {more : List Json} (h : (arr items).Sorted) (hmore : (arr more).Sorted) :
    (arr (items ++ more)).Sorted := by
  refine sorted_arr.2 fun item hmem => ?_
  rcases List.mem_append.1 hmem with hmem | hmem
  · exact sorted_arr.1 h item hmem
  · exact sorted_arr.1 hmore item hmem

theorem sorted_ofStrings (texts : List String) : (ofStrings texts).Sorted :=
  sortedItems_map fun _ _ => trivial

end Parts

section Numbers

theorem sorted_ofInt (n : Int) : (ofInt n).Sorted := by
  unfold ofInt
  cases Number.ofInt? n <;> trivial

theorem sorted_ofDouble (x : Double) : (ofDouble x).Sorted := by
  unfold ofDouble
  split
  · split <;> trivial
  · trivial

theorem sorted_lerp {source target : Json} {t : Double} (h : lerp source target t = .ok json) :
    json.Sorted := by
  have hitems : ∀ as bs items, lerpItems? t as bs = some items → (arr items).Sorted := by
    intro as bs
    induction as, bs using lerpItems?.induct with
    | case1 =>
        intro items hitems
        cases hitems
        trivial
    | case2 a as b bs ih =>
        intro items hitems
        obtain ⟨rest, hrest, rfl⟩ := Option.map_eq_some_iff.1 hitems
        exact ⟨sorted_ofDouble _, ih rest hrest⟩
    | case3 as bs hnil hcons =>
        intro items hitems
        rw [lerpItems?] at hitems
        · cases hitems
        · exact hnil
        · exact hcons
  unfold lerp at h
  cases hlerp : lerp? source target t with
  | none =>
      rw [hlerp] at h
      cases h
  | some value =>
      rw [hlerp] at h
      cases h
      unfold lerp? at hlerp
      split at hlerp
      · cases hlerp
        exact sorted_ofDouble _
      · obtain ⟨items, hread, rfl⟩ := Option.map_eq_some_iff.1 hlerp
        exact hitems _ _ items hread
      · cases hlerp

end Numbers

-- What is read of a text in order differs in its numbers at most.
section Rereading

mutual

def mapNumbers (f : Number → Number) : Json → Json
  | num n => num (f n)
  | arr items => arr (mapNumbersItems f items)
  | obj fields => obj (mapNumbersFields f fields)
  | null => null
  | bool b => bool b
  | str s => str s

def mapNumbersItems (f : Number → Number) : List Json → List Json
  | [] => []
  | a :: as => mapNumbers f a :: mapNumbersItems f as

def mapNumbersFields (f : Number → Number) : List (String × Json) → List (String × Json)
  | [] => []
  | (k, a) :: as => (k, mapNumbers f a) :: mapNumbersFields f as

end

theorem keys_mapNumbersFields (f : Number → Number) (fields : List (String × Json)) :
    Dict.keys (mapNumbersFields f fields) = Dict.keys fields := by
  induction fields with
  | nil => rfl
  | cons field rest ih => exact congrArg (field.1 :: ·) ih

mutual

theorem reread_eq_mapNumbers : (json : Json) → json.Sorted → json.reread = json.mapNumbers Number.reread
  | null, _ | bool _, _ | str _, _ | num _, _ => rfl
  | arr items, h => congrArg arr (rereadItems_eq_mapNumbers items h)
  | obj fields, h => by
      have hkeys : Dict.Sorted (mapNumbersFields Number.reread fields) :=
        Dict.sorted_of_keys_eq (keys_mapNumbersFields _ fields) h.1
      rw [reread, rereadFields_eq_mapNumbers fields h.2, ofFields, Dict.ofList_eq_self hkeys, mapNumbers]

theorem rereadItems_eq_mapNumbers : (items : List Json) → SortedItems items →
    rereadItems items = mapNumbersItems Number.reread items
  | [], _ => rfl
  | a :: as, h => by
      rw [rereadItems, reread_eq_mapNumbers a h.1, rereadItems_eq_mapNumbers as h.2, mapNumbersItems]

theorem rereadFields_eq_mapNumbers : (fields : List (String × Json)) → SortedFields fields →
    rereadFields fields = mapNumbersFields Number.reread fields
  | [], _ => rfl
  | (k, a) :: as, h => by
      rw [rereadFields, reread_eq_mapNumbers a h.1, rereadFields_eq_mapNumbers as h.2, mapNumbersFields]

end

end Rereading

section Reader

structure ReadsSorted (fuel : Nat) : Prop where
  value : ∀ {room cs json rest}, readValue fuel room cs = some (json, rest) → json.Sorted
  items : ∀ {room cs items rest}, readItems fuel room cs = some (items, rest) → ∀ item ∈ items, item.Sorted
  fields : ∀ {room cs fields rest}, readFields fuel room cs = some (fields, rest) →
    ∀ field ∈ fields, field.2.Sorted

variable {fuel room : Nat} {cs rest : List Char}

theorem ReadsSorted.value_succ (h : ReadsSorted fuel)
    (hread : readValue (fuel + 1) room cs = some (json, rest)) : json.Sorted := by
  cases readValue_cases hread with
  | null | true | false | string | number => trivial
  | emptyArray => trivial
  | array _ _ _ hitems => exact sorted_arr.2 (h.items hitems)
  | emptyObject => exact ⟨List.Pairwise.nil, trivial⟩
  | object _ _ _ hfields => exact sorted_ofFields (h.fields hfields)

theorem ReadsSorted.items_succ (h : ReadsSorted fuel)
    (hread : readItems (fuel + 1) room cs = some (items, rest)) : ∀ item ∈ items, item.Sorted := by
  cases readItems_cases hread with
  | last hitem => exact List.forall_mem_singleton.2 (h.value hitem)
  | cons hitem _ hitems => exact List.forall_mem_cons.2 ⟨h.value hitem, h.items hitems⟩

theorem ReadsSorted.fields_succ (h : ReadsSorted fuel)
    (hread : readFields (fuel + 1) room cs = some (fields, rest)) : ∀ field ∈ fields, field.2.Sorted := by
  cases readFields_cases hread with
  | last _ hvalue => exact List.forall_mem_singleton.2 (h.value hvalue)
  | cons _ hvalue _ hfields => exact List.forall_mem_cons.2 ⟨h.value hvalue, h.fields hfields⟩

theorem readsSorted (fuel : Nat) : ReadsSorted fuel := by
  induction fuel with
  | zero => exact ⟨nofun, nofun, nofun⟩
  | succ fuel ih => exact ⟨ih.value_succ, ih.items_succ, ih.fields_succ⟩

theorem sorted_parseChars? (h : parseChars? cs = some json) : json.Sorted := by
  obtain ⟨rest, hread, -⟩ := parseChars?_iff.1 h
  exact (readsSorted _).value hread

theorem sorted_parse? {text : String} (h : parse? text = some json) : json.Sorted := sorted_parseChars? h

end Reader

end SceneLink.Json
