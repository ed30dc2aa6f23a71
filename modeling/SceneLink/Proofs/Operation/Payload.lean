import SceneLink.Host.Session
import SceneLink.Proofs.Json.Record
import SceneLink.Proofs.Operation.Batch

namespace SceneLink

namespace Json

theorem rereadFields_eq (fields : List (String × Json)) :
    rereadFields fields = Dict.mapValues reread fields := by
  induction fields with
  | nil => rfl
  | cons field rest ih =>
      obtain ⟨k, a⟩ := field
      rw [rereadFields, ih]
      rfl

theorem rereadItems_eq (items : List Json) : rereadItems items = items.map reread := by
  induction items with
  | nil => rfl
  | cons a as ih => rw [rereadItems, ih, List.map_cons]

theorem reread_record {d : Dict String Json} (hd : d.Sorted) :
    (record d).reread = record (d.mapValues reread) := by
  rw [record, reread, rereadFields_eq, ofFields, Dict.ofList_eq_self (Dict.sorted_mapValues hd)]
  rfl

theorem reread_ofFields (pairs : List (String × Json)) :
    (ofFields pairs).reread = record ((Dict.ofList pairs).mapValues reread) :=
  reread_record (Dict.sorted_ofList pairs)

-- A dictionary of values that are each read as something is read as all of these.
theorem dictOf?_record {α β : Type} {read : Json → Option β} {write : α → Json} {f : α → β}
    {d : Dict String α} (hd : d.Sorted) (h : ∀ entry ∈ d, read (write entry.2).reread = some (f entry.2)) :
    dictOf? read (record (d.mapValues write)).reread = some (d.mapValues f) := by
  have hmap : (d.mapValues write).mapValues reread = d.mapValues (reread ∘ write) :=
    List.map_map
  rw [reread_record (Dict.sorted_mapValues hd), hmap]
  exact Dict.mapValues?_mapValues h

end Json

namespace Path

def Parsed (p : Path) : Prop := parse p.text = .ok p

theorem parsed_of_parse {text : String} {p : Path} (h : parse text = .ok p) : p.Parsed := by
  have htext : p.text = text := by
    unfold parse at h
    split at h
    · next hempty =>
      rw [← Except.ok.inj h, hempty]
      rfl
    · cases hsteps : parseSteps 0 (text.toList.splitOn '/') with
      | error e => rw [hsteps] at h; cases h
      | ok steps =>
          rw [hsteps] at h
          rw [← Except.ok.inj h]
  unfold Parsed
  rw [htext]
  exact h

theorem reads {p : Path} (h : p.Parsed) : ofJson? p.toJson = some p := by
  unfold toJson ofJson?
  dsimp only
  rw [h]

structure AllParsed (paths : Dict String Path) : Prop where
  sorted : paths.Sorted
  parsed : ∀ entry ∈ paths, entry.2.Parsed

theorem allReads {paths : Dict String Path} (h : AllParsed paths) :
    Json.dictOf? ofJson? (Json.record (paths.mapValues toJson)) = some paths :=
  Json.dictOf?_mapValues fun entry he => reads (h.parsed entry he)

theorem reread_paths {paths : Dict String Path} (hsorted : paths.Sorted) :
    (Json.record (paths.mapValues toJson)).reread = Json.record (paths.mapValues toJson) := by
  rw [Json.reread_record (Dict.sorted_mapValues hsorted), Dict.mapValues_mapValues]
  rfl

end Path

namespace InterestSpec

def reread (spec : InterestSpec) : InterestSpec :=
  { spec with extra := spec.extra.mapValues Json.reread }

theorem reread_eq_self {spec : InterestSpec}
    (h : ∀ field ∈ spec.extra, field.2.Sorted ∧ field.2.Exact) : spec.reread = spec := by
  have hextra : spec.extra.mapValues Json.reread = spec.extra := by
    refine (List.map_congr_left fun field hf => ?_).trans (List.map_id _)
    exact congrArg (Prod.mk field.1) (Json.reread_eq_self field.2 (h field hf).1 (h field hf).2)
  unfold reread
  rw [hextra]

-- An interest whose metadata leaves room for its query.
structure Formed (spec : InterestSpec) : Prop where
  paths : Path.AllParsed spec.query
  sorted : spec.extra.Sorted
  free : spec.extra.get? "query" = none

theorem reads {spec : InterestSpec} (h : spec.Formed) : ofJson? spec.toJson = some spec := by
  let pairs : List (String × Json) :=
    ("query", .record (spec.query.mapValues Path.toJson)) :: spec.extra
  have hget : ∀ name, (Dict.ofList pairs).get? name = if name = "query"
      then some (.record (spec.query.mapValues Path.toJson)) else spec.extra.get? name := by
    intro name
    refine (Dict.get?_insertAll h.sorted _ name).trans ?_
    rw [Dict.get?_insert]
    split
    · next heq => rw [heq, h.free]; rfl
    · exact Option.or_none
  have hextra : (Dict.ofList pairs).erase "query" = spec.extra := by
    refine Dict.eq_of_get?_eq (Dict.sorted_erase (Dict.sorted_ofList pairs) _) h.sorted fun name => ?_
    rw [Dict.get?_erase, hget]
    split
    · next heq => rw [heq, h.free]
    · rfl
  have hquery : (Dict.ofList pairs).get? "query" = some (.record (spec.query.mapValues Path.toJson)) := by
    rw [hget, if_pos rfl]
  change ofJson? (.obj (Dict.ofList pairs)) = _
  unfold ofJson? Json.Fields.withDefault
  dsimp only
  rw [hquery]
  dsimp only
  rw [Path.allReads h.paths, hextra]
  rfl

theorem formed_reread {spec : InterestSpec} (h : spec.Formed) : spec.reread.Formed where
  paths := h.paths
  sorted := Dict.sorted_mapValues h.sorted
  free := by
    unfold reread
    rw [Dict.get?_mapValues, h.free]
    rfl

-- To read the text of an interest again is to read its metadata again.
theorem toJson_reread {spec : InterestSpec} (h : spec.Formed) : spec.toJson.reread = spec.reread.toJson := by
  unfold toJson
  rw [Json.reread_ofFields, Dict.ofList, Dict.mapValues_insertAll]
  change Json.obj (Dict.insertAll [] (("query", _) :: _)) = _
  rw [Path.reread_paths h.paths.sorted]
  rfl

theorem ofJson?_toJson {spec : InterestSpec} (h : spec.Formed) :
    ofJson? spec.toJson.reread = some spec.reread := by
  rw [toJson_reread h]
  exact reads (formed_reread h)

end InterestSpec

namespace InterestChanges

theorem ofJson?_toJson {changes : InterestChanges} (hsorted : changes.Sorted)
    (hformed : ∀ entry ∈ changes, ∀ spec, entry.2 = some spec → spec.Formed) :
    ofJson? (toJson changes).reread = some (changes.mapValues (·.map InterestSpec.reread)) := by
  refine Json.dictOf?_record hsorted fun entry he => ?_
  cases hchange : entry.2 with
  | none => rfl
  | some spec =>
      have hread := InterestSpec.ofJson?_toJson (hformed entry he spec hchange)
      unfold specToJson
      unfold InterestSpec.toJson at hread ⊢
      rw [Json.reread_ofFields] at hread ⊢
      unfold Json.nullable?
      change (InterestSpec.ofJson? _).map some = _
      rw [hread]
      rfl

end InterestChanges

namespace QueryRequest

def slots (request : QueryRequest) : List (String × Option Json) :=
  [("query", some (.record (request.query.mapValues Path.toJson))),
    ("callbackID", request.callbackId.map Json.str)]

theorem toJson_slots (request : QueryRequest) : request.toJson = Json.ofFields (Json.written request.slots) := by
  simp [toJson, slots, Json.written, Json.present]

theorem reads {request : QueryRequest} (h : Path.AllParsed request.query) :
    ofJson? request.toJson = some request := by
  have hrecord := Json.record?_written ["query", "callbackID"] request.slots
    (by simp [slots])
  have hquery : (Json.fieldsOf request.slots).required "query"
      (Json.dictOf? Path.ofJson?) = some request.query :=
    Json.Fields.required_eq rfl (Path.allReads h)
  have hcallback : (Json.fieldsOf request.slots).optional "callbackID"
      Json.str? = some request.callbackId :=
    Json.Fields.optional_eq Json.str rfl fun _ _ => ⟨rfl, rfl⟩
  rw [toJson_slots]
  unfold ofJson?
  simp only [hrecord, hquery, hcallback, Option.bind_eq_bind, Option.bind_some]
  rfl

theorem toJson_reread {request : QueryRequest} (h : Path.AllParsed request.query) :
    request.toJson.reread = request.toJson := by
  have hstr : ∀ name, name ∈ request.callbackId.map Json.str → name.Sorted ∧ name.Exact := by
    intro name hname
    obtain ⟨text, -, rfl⟩ := Option.map_eq_some_iff.1 hname
    exact ⟨trivial, trivial⟩
  have hsorted : (Json.ofFields (Json.written request.slots)).Sorted := by
    apply Json.sorted_written
    simp only [slots, List.forall_mem_cons, Option.mem_some_iff, forall_eq']
    exact ⟨Json.sorted_record h.sorted fun _ _ => trivial, fun name hn => (hstr name hn).1,
      List.forall_mem_nil _⟩
  have hexact : (Json.ofFields (Json.written request.slots)).Exact := by
    apply Json.exact_written
    simp only [slots, List.forall_mem_cons, Option.mem_some_iff, forall_eq']
    exact ⟨Json.exact_record fun _ _ => trivial, fun name hn => (hstr name hn).2, List.forall_mem_nil _⟩
  rw [toJson_slots]
  exact Json.reread_eq_self _ hsorted hexact

theorem ofJson?_toJson {request : QueryRequest} (h : Path.AllParsed request.query) :
    ofJson? request.toJson.reread = some request := by
  rw [toJson_reread h]
  exact reads h

theorem field_callbackId (paths : Dict String Path) (callbackId : String) :
    (toJson { query := paths, callbackId := some callbackId }).reread.field? "callbackID" =
      some (.str callbackId) := by
  unfold toJson
  rw [Json.reread_ofFields]
  change Dict.get? _ "callbackID" = _
  rw [Dict.get?_mapValues]
  simp only [Json.present, Option.map_some, Dict.ofList, Dict.insertAll, List.foldl_cons,
    List.foldl_nil, Dict.get?_insert]
  rfl

-- Whatever becomes of the paths, the answer goes to the same callback.
theorem callbackId_eq {paths : Dict String Path} {callbackId : String} {request : QueryRequest}
    (h : ofJson? (toJson { query := paths, callbackId := some callbackId }).reread = some request) :
    request.callbackId = some callbackId := by
  have hget := field_callbackId paths callbackId
  unfold toJson at h hget
  rw [Json.reread_ofFields] at h hget
  generalize (Dict.ofList (("query", Json.record (paths.mapValues Path.toJson)) ::
    Json.present "callbackID" ((some callbackId).map Json.str))).mapValues Json.reread = d at h hget
  change Dict.get? d "callbackID" = _ at hget
  simp only [ofJson?, Json.record, Json.record?, Json.Fields.optional, Option.bind_eq_bind,
    Option.bind_some, hget, Json.str?, Option.map_some, Option.bind_eq_some_iff] at h
  obtain ⟨_, _, hrequest⟩ := h
  rw [← Option.some.inj hrequest]

end QueryRequest

namespace Template

section Fields

variable {name key : String}

private theorem ne_of_present (h : key ≠ name) {value : Option Json} {field : String × Json}
    (hf : field ∈ Json.present key value) : field.1 ≠ name := by
  unfold Json.present at hf
  split at hf
  · cases hf
  · rw [List.mem_singleton.1 hf]
    exact h

private theorem ne_of_listField (h : key ≠ name) {events : List TemplateEvent} {field : String × Json}
    (hf : field ∈ listField key events) : field.1 ≠ name := by
  unfold listField at hf
  split at hf
  · cases hf
  · rw [List.mem_singleton.1 hf]
    exact h

private theorem ne_of_dictField (h : key ≠ name) {entries : Dict String Json} {field : String × Json}
    (hf : field ∈ dictField key entries) : field.1 ≠ name := by
  unfold dictField at hf
  split at hf
  · cases hf
  · rw [List.mem_singleton.1 hf]
    exact h

end Fields

-- The fields in front of the interests, but for the identifier, and those behind.
def front (t : Template) : List (String × Json) :=
  Json.present "prefab" ((nonEmpty? t.prefab).map Json.str)
    ++ Json.present "component" ((nonEmpty? t.component).map Json.str)
    ++ listField "preEvents" t.preEvents
    ++ Json.present "parent" ((nonEmpty? t.parent).map Json.str)
    ++ Json.present "worldPositionStays" (t.worldPositionStays.map Json.bool)
    ++ dictField "update" t.update

def middle (t : Template) : List (String × Json) :=
  dictField "interests" (t.interests.mapValues InterestSpec.toJson)

private theorem toJson_eq (t : Template) : t.toJson = Json.ofFields
    (("id", .str t.id) :: (t.front ++ t.middle ++ listField "postEvents" t.postEvents)) := by
  simp only [toJson, front, middle, List.append_assoc, List.cons_append, List.nil_append]

private theorem front_ne {t : Template} {name : String} (hname : name ∈ ["id", "interests"]) :
    ∀ field ∈ t.front, field.1 ≠ name := by
  have hall : ∀ key ∈ ["prefab", "component", "preEvents", "parent", "worldPositionStays", "update"],
      ∀ name ∈ ["id", "interests"], key ≠ name := by decide
  have hne := fun key hkey => hall key hkey name hname
  intro field hf
  unfold front at hf
  simp only [List.mem_append] at hf
  rcases hf with ((((hf | hf) | hf) | hf) | hf) | hf
  · exact ne_of_present (hne _ (by simp)) hf
  · exact ne_of_present (hne _ (by simp)) hf
  · exact ne_of_listField (hne _ (by simp)) hf
  · exact ne_of_present (hne _ (by simp)) hf
  · exact ne_of_present (hne _ (by simp)) hf
  · exact ne_of_dictField (hne _ (by simp)) hf

theorem toJson_id (t : Template) : t.toJson.field? "id" = some (.str t.id) := by
  rw [toJson_eq]
  change Dict.get? (Dict.ofList _) "id" = _
  apply Dict.get?_ofList_cons
  intro field hf
  rcases List.mem_append.1 hf with hf | hf
  · rcases List.mem_append.1 hf with hf | hf
    · exact front_ne (by simp) field hf
    · exact ne_of_dictField (by decide) hf
  · exact ne_of_listField (by decide) hf

theorem field_id (t : Template) : t.toJson.reread.field? "id" = some (.str t.id) := by
  have hid := t.toJson_id
  rw [toJson_eq] at hid ⊢
  change Dict.get? _ "id" = _ at hid
  rw [Json.reread_ofFields]
  change Dict.get? _ "id" = _
  rw [Dict.get?_mapValues, hid]
  rfl

theorem field_interests (t : Template) : t.toJson.reread.field? "interests" =
    if t.interests = [] then none
    else some (Json.record (t.interests.mapValues InterestSpec.toJson)).reread := by
  rw [toJson_eq, Json.reread_ofFields]
  change Dict.get? _ "interests" = _
  have hlast : ∀ field ∈ listField "postEvents" t.postEvents, field.1 ≠ "interests" :=
    fun field hf => ne_of_listField (by decide) hf
  have hfirst : ∀ field ∈ ("id", Json.str t.id) :: t.front, field.1 ≠ "interests" := by
    intro field hf
    rcases List.mem_cons.1 hf with hf | hf
    · rw [hf]
      exact (by decide : "id" ≠ "interests")
    · exact front_ne (by simp) field hf
  have hnone := Dict.get?_insertAll_of_forall_ne (d := []) hfirst
  rw [Dict.get?_mapValues, Dict.ofList, ← List.cons_append, ← List.cons_append, Dict.insertAll_pairs,
    Dict.get?_insertAll_of_forall_ne hlast, Dict.insertAll_pairs]
  unfold middle dictField
  cases hinterests : t.interests with
  | nil =>
      rw [if_pos (by rfl)]
      exact congrArg (Option.map _) hnone
  | cons entry rest =>
      rw [if_neg (List.cons_ne_nil _ _), if_neg (by simp [Dict.mapValues])]
      change Option.map _ (Dict.get? (Dict.insert _ _ _) _) = _
      rw [Dict.get?_insert, if_pos rfl]
      rfl

theorem ofJson?_toJson {t template : Template} (h : ofJson? t.toJson.reread = some template) :
    template.id = t.id ∧
      (t.interests.Sorted → (∀ entry ∈ t.interests, entry.2.Formed) →
        template.interests = t.interests.mapValues InterestSpec.reread) := by
  have hid := t.field_id
  have hinterests := t.field_interests
  rw [toJson_eq, Json.reread_ofFields] at h hid hinterests
  generalize (Dict.ofList (("id", Json.str t.id) ::
    (t.front ++ t.middle ++ listField "postEvents" t.postEvents))).mapValues Json.reread = d
    at h hid hinterests
  change Dict.get? d "id" = _ at hid
  change Dict.get? d "interests" = _ at hinterests
  simp only [ofJson?, Json.record, Json.record?, Json.Fields.withDefault, Option.bind_eq_bind,
    Option.bind_some, hid, hinterests, Json.str?, Option.bind_eq_some_iff] at h
  obtain ⟨_, _, _, _, _, _, _, _, _, _, _, _, interests, hread, _, _, htemplate⟩ := h
  rw [← Option.some.inj htemplate]
  refine ⟨rfl, fun hsorted hformed => ?_⟩
  split at hread
  · next hnone =>
    split at hnone
    · next hnil =>
      rw [hnil, ← Option.some.inj hread]
      rfl
    · cases hnone
  · next value hsome =>
    split at hsome
    · cases hsome
    · have hall := Json.dictOf?_record hsorted fun entry he =>
        InterestSpec.ofJson?_toJson (hformed entry he)
      rw [← Option.some.inj hsome] at hread
      exact Option.some.inj (hread.symm.trans hall)

end Template

namespace Animation

theorem field_callbackId (a : Animation) :
    a.toJson.reread.field? "callbackID" = a.callbackId.map Json.str := by
  let front : List (String × Json) :=
    [("path", a.path.toJson), ("to", a.target), ("duration", Json.ofFloat a.duration)]
      ++ (if a.delay.isZero then [] else [("delay", Json.ofFloat a.delay)])
      ++ Json.present "ease" (a.ease.map Ease.toJson)
  have hfront : ∀ field ∈ front, field.1 ≠ "callbackID" := by
    intro field hf
    simp only [front, List.mem_append] at hf
    rcases hf with (hf | hf) | hf
    · revert field
      simp
    · split at hf
      · cases hf
      · rw [List.mem_singleton.1 hf]
        exact (by decide : "delay" ≠ "callbackID")
    · exact Template.ne_of_present (by decide) hf
  have hnone := Dict.get?_insertAll_of_forall_ne (d := []) hfront
  have htoJson : a.toJson = Json.ofFields (front ++
      Json.present "callbackID" (a.callbackId.map Json.str)) := rfl
  rw [htoJson, Json.reread_ofFields]
  change Dict.get? _ "callbackID" = _
  rw [Dict.get?_mapValues, Dict.ofList, Dict.insertAll_pairs]
  cases a.callbackId with
  | none => exact congrArg (Option.map _) hnone
  | some id =>
      change Option.map _ (Dict.get? (Dict.insert _ _ _) _) = _
      rw [Dict.get?_insert, if_pos rfl]
      rfl

theorem callbackId_eq {a b : Animation} (h : ofJson? a.toJson.reread = some b) :
    b.callbackId = a.callbackId := by
  have hget := a.field_callbackId
  unfold toJson at h hget
  rw [Json.reread_ofFields] at h hget
  generalize (Dict.ofList a.fields).mapValues Json.reread = d at h hget
  change Dict.get? d "callbackID" = _ at hget
  simp only [ofJson?, Json.record, Json.record?, Option.bind_eq_bind, Option.bind_some,
    Option.bind_eq_some_iff] at h
  obtain ⟨_, _, _, _, _, _, _, _, _, _, callbackId, hread, hanimation⟩ := h
  rw [← Option.some.inj hanimation]
  unfold Json.Fields.optional at hread
  dsimp only at hread
  rw [hget] at hread
  cases hid : a.callbackId with
  | none =>
      rw [hid] at hread
      exact (Option.some.inj hread).symm
  | some id =>
      rw [hid] at hread
      exact (Option.some.inj hread).symm

end Animation

namespace Operation

theorem subject_create (t : Template) : Host.subject (create t).wire = t.id := by
  have hevent : (create t).wire.event = .create := rfl
  unfold Host.subject
  rw [if_pos hevent, wire_data]
  change ((t.toJson.reread.field? "id").bind Json.str?).getD "" = t.id
  rw [t.field_id]
  rfl

theorem payload_eq_ok {α : Type} {op : Operation} {read : Json → Option α} {value : α} :
    op.payload read = .ok value ↔ read (op.data.getD .null) = some value := by
  unfold payload
  cases read (op.data.getD .null) <;> simp

theorem payload_create {t template : Template}
    (h : (create t).wire.payload Template.ofJson? = .ok template) :
    template.id = t.id ∧
      (t.interests.Sorted → (∀ entry ∈ t.interests, entry.2.Formed) →
        template.interests = t.interests.mapValues InterestSpec.reread) := by
  rw [payload_eq_ok, wire_data] at h
  exact Template.ofJson?_toJson h

theorem payload_wire {α : Type} {op : Operation} {data : Json} {read : Json → Option α} {value : α}
    (hdata : op.data = some data) (hread : read data.reread = some value) :
    op.wire.payload read = .ok value := by
  rw [payload_eq_ok, wire_data, hdata, Option.map_some, Option.getD_some, hread]

theorem payload_updateInterests (id : String) {changes : InterestChanges} (hsorted : changes.Sorted)
    (hformed : ∀ entry ∈ changes, ∀ spec, entry.2 = some spec → spec.Formed) :
    (updateInterests id changes).wire.payload InterestChanges.ofJson? =
      .ok (changes.mapValues (·.map InterestSpec.reread)) :=
  payload_wire rfl (InterestChanges.ofJson?_toJson hsorted hformed)

theorem payload_query (id : String) {paths : Dict String Path} (h : Path.AllParsed paths)
    (callbackId : String) :
    (query id { query := paths, callbackId := some callbackId }).wire.payload QueryRequest.ofJson? =
      .ok { query := paths, callbackId := some callbackId } :=
  payload_wire rfl (QueryRequest.ofJson?_toJson h)

theorem callbackId_query {id callbackId : String} {paths : Dict String Path} {request : QueryRequest}
    (h : (query id { query := paths, callbackId := some callbackId }).wire.payload
      QueryRequest.ofJson? = .ok request) : request.callbackId = some callbackId := by
  rw [payload_eq_ok, wire_data] at h
  exact QueryRequest.callbackId_eq h

-- The names of the answers to come are those that the animations carry.
theorem callbackId_animate {id : String} {animations read : List Animation}
    (h : (animate id animations).wire.payload (Json.listOf? Animation.ofJson?) = .ok read) :
    read.map (·.callbackId) = animations.map (·.callbackId) := by
  rw [payload_eq_ok, wire_data] at h
  change List.mapM Animation.ofJson? (Json.rereadItems (animations.map Animation.toJson)) = _ at h
  rw [Json.rereadItems_eq, List.map_map] at h
  induction animations generalizing read with
  | nil =>
      cases h
      rfl
  | cons a rest ih =>
      rw [List.map_cons, List.mapM_cons] at h
      obtain ⟨b, hb, h⟩ := Option.bind_eq_some_iff.1 h
      obtain ⟨bs, hbs, h⟩ := Option.bind_eq_some_iff.1 h
      rw [← Option.some.inj h, List.map_cons, List.map_cons, ih hbs, Animation.callbackId_eq hb]

end Operation

end SceneLink
