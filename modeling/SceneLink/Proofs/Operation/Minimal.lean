import Mathlib.Data.List.Forall2
import SceneLink.Proofs.Operation.Payload

namespace SceneLink

namespace TemplateEvent

def minimal (event : TemplateEvent) : TemplateEvent :=
  { event with data := event.data.filter fun json => !json.isNull }

def slots (event : TemplateEvent) : List (String × Option Json) :=
  [("event", some (.str event.event)), ("data", event.data)]

theorem toJson_slots (event : TemplateEvent) :
    event.toJson = Json.ofFields (Json.written event.slots) := by
  simp [toJson, slots, Json.written, Json.present]

theorem reads (event : TemplateEvent) : ofJson? event.toJson = some event.minimal := by
  have hrecord := Json.record?_written ["event", "data"] event.slots (by simp [slots])
  have hevent : (Json.fieldsOf event.slots).required "event"
      Json.str? = some event.event := Json.Fields.required_eq rfl rfl
  have hdata : (Json.fieldsOf event.slots).optional "data" some =
      some event.minimal.data := Json.Fields.optional_some event.data rfl
  rw [toJson_slots]
  unfold ofJson?
  simp only [hrecord, hevent, hdata, Option.bind_eq_bind, Option.bind_some]
  rfl

theorem sorted_toJson {event : TemplateEvent} (h : ∀ data ∈ event.data, data.Sorted) :
    event.toJson.Sorted := by
  rw [toJson_slots]
  apply Json.sorted_written
  simp only [slots, List.forall_mem_cons, Option.mem_some_iff, forall_eq']
  exact ⟨trivial, h, List.forall_mem_nil _⟩

theorem of_ofJson? {json : Json} {event : TemplateEvent} (h : ofJson? json = some event)
    (hjson : json.Sorted) : event.minimal = event ∧ ∀ data ∈ event.data, data.Sorted := by
  unfold ofJson? at h
  simp only [Option.bind_eq_bind, Option.bind_eq_some_iff] at h
  obtain ⟨fields, hfields, name, -, data, hdata, hevent⟩ := h
  rw [← Option.some.inj hevent]
  have hread : fields.optional "data" some = _ := Json.Fields.optional_some (fields "data") rfl
  rw [hread] at hdata
  have hdata' := (Option.some.inj hdata).symm
  constructor
  · unfold minimal
    rw [hdata', Option.filter_filter]
    simp
  · intro value hvalue
    rw [hdata'] at hvalue
    exact Json.Fields.sorted_of_record? hjson hfields (Option.eq_some_of_filter_eq_some hvalue)

end TemplateEvent

namespace InterestSpec

theorem sorted_toJson {spec : InterestSpec} (h : spec.Formed)
    (hextra : ∀ field ∈ spec.extra, field.2.Sorted) : spec.toJson.Sorted := by
  apply Json.sorted_ofFields
  rw [List.forall_mem_cons]
  exact ⟨Json.sorted_record h.paths.sorted fun _ _ => trivial, hextra⟩

theorem allParsed_of_dictOf? {json : Json} {paths : Dict String Path}
    (h : Json.dictOf? Path.ofJson? json = some paths) (hjson : json.Sorted) : Path.AllParsed paths := by
  obtain ⟨hsorted, hvalues⟩ := Json.of_dictOf? h hjson
  refine ⟨hsorted, fun entry he => ?_⟩
  obtain ⟨value, -, hvalue⟩ := hvalues entry he
  unfold Path.ofJson? at hvalue
  split at hvalue
  · next text =>
    split at hvalue
    · next path hpath =>
      rw [← Option.some.inj hvalue]
      exact Path.parsed_of_parse hpath
    · cases hvalue
  · cases hvalue

theorem of_ofJson? {json : Json} {spec : InterestSpec} (h : ofJson? json = some spec)
    (hjson : json.Sorted) : spec.Formed ∧ ∀ field ∈ spec.extra, field.2.Sorted := by
  unfold ofJson? at h
  split at h
  · next fields =>
    simp only [Option.bind_eq_bind, Option.bind_eq_some_iff] at h
    obtain ⟨query, hquery, hspec⟩ := h
    rw [← Option.some.inj hspec]
    refine ⟨⟨?_, Dict.sorted_erase hjson.1 _, ?_⟩, fun field hf => ?_⟩
    · rcases Json.Fields.of_withDefault hquery with hnil | ⟨value, hvalue, hread⟩
      · rw [hnil]
        exact ⟨List.Pairwise.nil, List.forall_mem_nil _⟩
      · exact allParsed_of_dictOf? hread (Json.sorted_of_mem_fields hjson.2 (Dict.mem_of_get? hvalue))
    · rw [Dict.get?_erase, if_pos rfl]
    · exact Json.sorted_of_mem_fields hjson.2 (List.mem_filter.1 hf).1
  · cases h

end InterestSpec

namespace Template

private theorem nonEmpty?_idem (text : Option String) : nonEmpty? (nonEmpty? text) = nonEmpty? text := by
  simp [nonEmpty?, Option.filter_filter]

-- The template as the far end has it, where empty texts and data that is null are absent.
def minimal (t : Template) : Template :=
  { t with
    prefab := nonEmpty? t.prefab
    component := nonEmpty? t.component
    preEvents := t.preEvents.map TemplateEvent.minimal
    parent := nonEmpty? t.parent
    postEvents := t.postEvents.map TemplateEvent.minimal }

-- A template whose data is in order, and whose interests leave room for their queries.
structure Formed (t : Template) : Prop where
  update : (Json.record t.update).Sorted
  interests : t.interests.Sorted
  specs : ∀ entry ∈ t.interests, entry.2.Formed ∧ ∀ field ∈ entry.2.extra, field.2.Sorted
  preEvents : ∀ event ∈ t.preEvents, ∀ data ∈ event.data, data.Sorted
  postEvents : ∀ event ∈ t.postEvents, ∀ data ∈ event.data, data.Sorted

def listSlot (events : List TemplateEvent) : Option Json :=
  if events.isEmpty then none else some (.arr (events.map TemplateEvent.toJson))

def dictSlot (entries : Dict String Json) : Option Json :=
  if entries.isEmpty then none else some (.record entries)

def slots (t : Template) : List (String × Option Json) :=
  [("id", some (.str t.id)), ("prefab", (nonEmpty? t.prefab).map Json.str),
    ("component", (nonEmpty? t.component).map Json.str), ("preEvents", listSlot t.preEvents),
    ("parent", (nonEmpty? t.parent).map Json.str),
    ("worldPositionStays", t.worldPositionStays.map Json.bool), ("update", dictSlot t.update),
    ("interests", dictSlot (t.interests.mapValues InterestSpec.toJson)),
    ("postEvents", listSlot t.postEvents)]

theorem toJson_slots (t : Template) : t.toJson = Json.ofFields (Json.written t.slots) := by
  have hlist : ∀ name events, listField name events = Json.present name (listSlot events) := by
    intro name events
    cases events <;> rfl
  have hdict : ∀ name entries, dictField name entries = Json.present name (dictSlot entries) := by
    intro name entries
    cases entries <;> rfl
  simp [toJson, slots, Json.written, hlist, hdict, Json.present]

theorem reads_listSlot (events : List TemplateEvent) :
    (listSlot events = none → events.map TemplateEvent.minimal = []) ∧
      ∀ json ∈ listSlot events, Json.listOf? TemplateEvent.ofJson? json =
        some (events.map TemplateEvent.minimal) := by
  cases events with
  | nil => exact ⟨fun _ => rfl, fun _ h => nomatch h⟩
  | cons event rest =>
      refine ⟨fun h => (nomatch h), fun json hjson => ?_⟩
      cases hjson
      exact Json.listOf?_map fun event _ => event.reads

theorem reads_dictSlot {β : Type} {entries : Dict String Json} {read : Json → Option (Dict String β)}
    {d : Dict String β} (hempty : entries = [] → d = []) (h : read (Json.record entries) = some d) :
    (dictSlot entries = none → d = []) ∧ ∀ json ∈ dictSlot entries, read json = some d := by
  cases entries with
  | nil => exact ⟨fun _ => hempty rfl, fun _ h => nomatch h⟩
  | cons entry rest =>
      refine ⟨fun h => (nomatch h), fun json hjson => ?_⟩
      cases hjson
      exact h

theorem reads {t : Template} (h : t.Formed) : ofJson? t.toJson = some t.minimal := by
  have hrecord := Json.record?_written fieldNames t.slots (by simp [slots])
  have htext : ∀ text : Option String, ∀ s ∈ text, (Json.str s).isNull = false ∧ (Json.str s).str? = some s :=
    fun _ _ _ => ⟨rfl, rfl⟩
  have hid : (Json.fieldsOf t.slots).withDefault "id" "" Json.str? = some t.id :=
    Json.Fields.withDefault_eq rfl (fun h => nomatch h) fun _ hjson => by cases hjson; rfl
  have hprefab : (Json.fieldsOf t.slots).optional "prefab" Json.str? = some (nonEmpty? t.prefab) :=
    Json.Fields.optional_eq Json.str rfl (htext _)
  have hcomponent : (Json.fieldsOf t.slots).optional "component" Json.str? = some (nonEmpty? t.component) :=
    Json.Fields.optional_eq Json.str rfl (htext _)
  have hpre : (Json.fieldsOf t.slots).withDefault "preEvents" [] (Json.listOf? TemplateEvent.ofJson?) =
      some (t.preEvents.map TemplateEvent.minimal) :=
    Json.Fields.withDefault_eq rfl (reads_listSlot _).1 (reads_listSlot _).2
  have hparent : (Json.fieldsOf t.slots).optional "parent" Json.str? = some (nonEmpty? t.parent) :=
    Json.Fields.optional_eq Json.str rfl (htext _)
  have hstays : (Json.fieldsOf t.slots).optional "worldPositionStays" Json.bool? = some t.worldPositionStays :=
    Json.Fields.optional_eq Json.bool rfl fun _ _ => ⟨rfl, rfl⟩
  have hupdate : (Json.fieldsOf t.slots).withDefault "update" [] Json.fields? = some t.update :=
    have hslot := reads_dictSlot (fun h => h) rfl
    Json.Fields.withDefault_eq rfl hslot.1 hslot.2
  have hspecs : Json.dictOf? InterestSpec.ofJson? (Json.record (t.interests.mapValues InterestSpec.toJson)) =
      some t.interests :=
    Json.dictOf?_mapValues fun entry he => InterestSpec.reads (h.specs entry he).1
  have hinterests : (Json.fieldsOf t.slots).withDefault "interests" [] (Json.dictOf? InterestSpec.ofJson?) =
      some t.interests :=
    have hslot := reads_dictSlot List.map_eq_nil_iff.1 hspecs
    Json.Fields.withDefault_eq rfl hslot.1 hslot.2
  have hpost : (Json.fieldsOf t.slots).withDefault "postEvents" [] (Json.listOf? TemplateEvent.ofJson?) =
      some (t.postEvents.map TemplateEvent.minimal) :=
    Json.Fields.withDefault_eq rfl (reads_listSlot _).1 (reads_listSlot _).2
  rw [toJson_slots]
  unfold ofJson?
  simp only [hrecord, hid, hprefab, hcomponent, hpre, hparent, hstays, hupdate, hinterests, hpost,
    Option.bind_eq_bind, Option.bind_some]
  rfl

theorem sorted_toJson {t : Template} (h : t.Formed) : t.toJson.Sorted := by
  have htext : ∀ text : Option String, ∀ json ∈ text.map Json.str, json.Sorted := by
    intro text json hjson
    obtain ⟨_, -, rfl⟩ := Option.map_eq_some_iff.1 hjson
    trivial
  have hflag : ∀ json ∈ t.worldPositionStays.map Json.bool, json.Sorted := by
    intro json hjson
    obtain ⟨_, -, rfl⟩ := Option.map_eq_some_iff.1 hjson
    trivial
  have hlist : ∀ events : List TemplateEvent, (∀ event ∈ events, ∀ data ∈ event.data, data.Sorted) →
      ∀ json ∈ listSlot events, json.Sorted := by
    intro events hevents json hjson
    unfold listSlot at hjson
    split at hjson
    · cases hjson
    · cases hjson
      exact Json.sortedItems_map fun event he => TemplateEvent.sorted_toJson (hevents event he)
  have hdict : ∀ entries : Dict String Json, (Json.record entries).Sorted →
      ∀ json ∈ dictSlot entries, json.Sorted := by
    intro entries hentries json hjson
    unfold dictSlot at hjson
    split at hjson
    · cases hjson
    · cases hjson
      exact hentries
  have hspecs : (Json.record (t.interests.mapValues InterestSpec.toJson)).Sorted :=
    Json.sorted_record h.interests fun entry he =>
      InterestSpec.sorted_toJson (h.specs entry he).1 (h.specs entry he).2
  rw [toJson_slots]
  apply Json.sorted_written
  simp only [slots, List.forall_mem_cons]
  exact ⟨fun json hjson => by cases hjson; trivial, htext _, htext _, hlist _ h.preEvents, htext _, hflag,
    hdict _ h.update, hdict _ hspecs, hlist _ h.postEvents, List.forall_mem_nil _⟩

theorem of_ofJson? {json : Json} {t : Template} (h : ofJson? json = some t) (hjson : json.Sorted) :
    t.Formed ∧ t.minimal.toJson = t.toJson := by
  have hevents : ∀ {fields : Json.Fields} {name events}, json.record? fieldNames = some fields →
      fields.withDefault name [] (Json.listOf? TemplateEvent.ofJson?) = some events →
      ∀ event ∈ events, event.minimal = event ∧ ∀ data ∈ event.data, data.Sorted := by
    intro fields name events hfields hread event he
    rcases Json.Fields.of_withDefault hread with hnil | ⟨value, hvalue, hread⟩
    · rw [hnil] at he
      cases he
    · obtain ⟨item, hitem, hread⟩ :=
        Json.of_listOf? hread (Json.Fields.sorted_of_record? hjson hfields hvalue) event he
      exact TemplateEvent.of_ofJson? hread hitem
  have hself : ∀ {events : List TemplateEvent}, (∀ event ∈ events, event.minimal = event) →
      events.map TemplateEvent.minimal = events :=
    fun h => (List.map_congr_left h).trans (List.map_id _)
  unfold ofJson? at h
  simp only [Option.bind_eq_bind, Option.bind_eq_some_iff] at h
  obtain ⟨fields, hfields, _, -, _, -, _, -, pre, hpre, _, -, _, -, update, hupdate, interests,
    hinterests, post, hpost, ht⟩ := h
  have hpre := hevents hfields hpre
  have hpost := hevents hfields hpost
  rw [← Option.some.inj ht]
  refine ⟨⟨?_, ?_, ?_, fun event he => (hpre event he).2, fun event he => (hpost event he).2⟩, ?_⟩
  · rcases Json.Fields.of_withDefault hupdate with hnil | ⟨value, hvalue, hread⟩
    · rw [hnil]
      exact ⟨List.Pairwise.nil, trivial⟩
    · have hsorted := Json.Fields.sorted_of_record? hjson hfields hvalue
      cases value <;> cases hread
      exact hsorted
  · rcases Json.Fields.of_withDefault hinterests with hnil | ⟨value, hvalue, hread⟩
    · rw [hnil]
      exact List.Pairwise.nil
    · exact (Json.of_dictOf? hread (Json.Fields.sorted_of_record? hjson hfields hvalue)).1
  · intro entry he
    rcases Json.Fields.of_withDefault hinterests with hnil | ⟨value, hvalue, hread⟩
    · rw [hnil] at he
      cases he
    · obtain ⟨_, hvalues⟩ := Json.of_dictOf? hread (Json.Fields.sorted_of_record? hjson hfields hvalue)
      obtain ⟨item, hitem, hread⟩ := hvalues entry he
      exact InterestSpec.of_ofJson? hread hitem
  · have hpre := hself fun event he => (hpre event he).1
    have hpost := hself fun event he => (hpost event he).1
    simp only [minimal, toJson, nonEmpty?_idem, hpre, hpost]

end Template

namespace Animation

-- The same animation, where the two zeros are one delay.
structure Same (a b : Animation) : Prop where
  path : a.path = b.path
  target : a.target = b.target
  duration : a.duration = b.duration
  delay : a.delay.same b.delay = true
  ease : a.ease = b.ease
  callbackId : a.callbackId = b.callbackId

-- An animation that can be written: its numbers are finite and its target is in order.
structure Formed (a : Animation) : Prop where
  path : a.path.Parsed
  target : a.target.Sorted
  duration : a.duration.isFinite = true
  delay : a.delay.isFinite = true

-- A delay of zero is left out, and with it the sign of the zero.
def minimal (a : Animation) : Animation := { a with delay := if a.delay.isZero then 0 else a.delay }

theorem same_minimal {a : Animation} (h : a.delay.isFinite = true) : Same a.minimal a := by
  refine ⟨rfl, rfl, rfl, ?_, rfl, rfl⟩
  unfold minimal
  dsimp only
  split
  · next hzero =>
    have h0 : (0 : Double) = Double.zero := by decide +kernel
    cases hdelay : a.delay with
    | finite x =>
        rw [hdelay] at hzero
        rw [h0]
        simp only [Double.isZero, Double.same, Double.zero, decide_eq_true_eq] at hzero ⊢
        exact hzero.symm
    | _ =>
        rw [hdelay] at h
        cases h
  · cases hdelay : a.delay with
    | finite x => simp [Double.same]
    | _ =>
        rw [hdelay] at h
        cases h

def slots (a : Animation) : List (String × Option Json) :=
  [("path", some a.path.toJson), ("to", some a.target), ("duration", some (Json.ofFloat a.duration)),
    ("delay", if a.delay.isZero then none else some (Json.ofFloat a.delay)),
    ("ease", a.ease.map Ease.toJson), ("callbackID", a.callbackId.map Json.str)]

theorem toJson_slots (a : Animation) : a.toJson = Json.ofFields (Json.written a.slots) := by
  have hdelay : (if a.delay.isZero then [] else [("delay", Json.ofFloat a.delay)]) =
      Json.present "delay" (if a.delay.isZero then none else some (Json.ofFloat a.delay)) := by
    split <;> rfl
  unfold toJson fields
  rw [hdelay]
  simp [slots, Json.written, Json.present]

private theorem double?_ofFloat {x : Double} (h : x.isFinite = true) : (Json.ofFloat x).double? = some x := by
  cases x with
  | finite x => rfl
  | _ => cases h

theorem reads {a : Animation} (h : a.Formed) : ofJson? a.toJson = some a.minimal := by
  have hrecord := Json.record?_written ["path", "to", "duration", "delay", "ease", "callbackID"] a.slots
    (by simp [slots])
  have hpath : (Json.fieldsOf a.slots).required "path" Path.ofJson? = some a.path :=
    Json.Fields.required_eq rfl (Path.reads h.path)
  have htarget : (Json.fieldsOf a.slots).required "to" some = some a.target :=
    Json.Fields.required_eq rfl rfl
  have hduration : (Json.fieldsOf a.slots).required "duration" Json.double? = some a.duration :=
    Json.Fields.required_eq rfl (double?_ofFloat h.duration)
  have hslot : Json.fieldsOf a.slots "delay" =
      if a.delay.isZero then none else some (Json.ofFloat a.delay) := rfl
  have hdelay : (Json.fieldsOf a.slots).withDefault "delay" 0 Json.double? = some a.minimal.delay := by
    refine Json.Fields.withDefault_eq hslot ?_ ?_
    · intro hnone
      unfold minimal
      split at hnone
      · next hzero => exact if_pos hzero
      · cases hnone
    · intro json hjson
      unfold minimal
      split at hjson
      · cases hjson
      · next hzero =>
        cases hjson
        rw [double?_ofFloat h.delay]
        exact congrArg some (if_neg hzero).symm
  have hease : (Json.fieldsOf a.slots).optional "ease" Ease.ofJson? = some a.ease :=
    Json.Fields.optional_eq Ease.toJson rfl fun ease _ => by cases ease <;> exact ⟨rfl, rfl⟩
  have hcallback : (Json.fieldsOf a.slots).optional "callbackID" Json.str? = some a.callbackId :=
    Json.Fields.optional_eq Json.str rfl fun _ _ => ⟨rfl, rfl⟩
  rw [toJson_slots]
  unfold ofJson?
  simp only [hrecord, hpath, htarget, hduration, hdelay, hease, hcallback, Option.bind_eq_bind,
    Option.bind_some]
  rfl

private theorem sorted_ofFloat (x : Double) : (Json.ofFloat x).Sorted := by cases x <;> trivial

theorem sorted_toJson {a : Animation} (h : a.Formed) : a.toJson.Sorted := by
  rw [toJson_slots]
  apply Json.sorted_written
  simp only [slots, List.forall_mem_cons, Option.mem_some_iff, forall_eq']
  refine ⟨trivial, h.target, sorted_ofFloat _, ?_, ?_, ?_, List.forall_mem_nil _⟩
  · intro json hjson
    split at hjson
    · cases hjson
    · cases hjson
      exact sorted_ofFloat _
  · intro json hjson
    obtain ⟨_, -, rfl⟩ := Option.map_eq_some_iff.1 hjson
    trivial
  · intro json hjson
    obtain ⟨_, -, rfl⟩ := Option.map_eq_some_iff.1 hjson
    trivial

end Animation

namespace InterestChanges

structure Formed (changes : InterestChanges) : Prop where
  sorted : changes.Sorted
  specs : ∀ entry ∈ changes, ∀ spec, entry.2 = some spec →
    spec.Formed ∧ ∀ field ∈ spec.extra, field.2.Sorted

theorem reads {changes : InterestChanges} (h : changes.Formed) : ofJson? changes.toJson = some changes := by
  refine Json.dictOf?_mapValues fun entry he => ?_
  cases hchange : entry.2 with
  | none => rfl
  | some spec => exact congrArg (Option.map some) (InterestSpec.reads (h.specs entry he spec hchange).1)

theorem sorted_toJson {changes : InterestChanges} (h : changes.Formed) : changes.toJson.Sorted := by
  refine Json.sorted_record h.sorted fun entry he => ?_
  cases hchange : entry.2 with
  | none => trivial
  | some spec =>
      have hspec := h.specs entry he spec hchange
      exact InterestSpec.sorted_toJson hspec.1 hspec.2

end InterestChanges

namespace Operation

-- Wherever it stands in a batch, the operation is decoded where it stood, with its event and its
-- identifier, and its payload is read as `value`.
def Carries {α : Type} (op : Operation) (read : Json → Option α) (value : α) : Prop :=
  ∀ before after : List Operation, (∀ other ∈ before ++ after, other.Fits) →
    ∃ ops received, Batch.decode (Batch.encode (before ++ op :: after)) = ⟨.ok ops, []⟩ ∧
      ops.length = (before ++ op :: after).length ∧ ops[before.length]? = some received ∧
      received.event = op.event ∧ received.id = op.id ∧ received.payload read = .ok value

theorem carries {α : Type} {op : Operation} {data : Json} {read : Json → Option α} {value : α}
    (hfits : op.Fits) (hevent : op.event.Settled) (hdata : op.data = some data)
    (hsame : data.reread = data) (hread : read data = some value) : op.Carries read value := by
  intro before after hothers
  have hall : ∀ other ∈ before ++ op :: after, other.Fits := by
    intro other ho
    simp only [List.mem_append, List.mem_cons] at ho hothers
    rcases ho with ho | rfl | ho
    · exact hothers other (.inl ho)
    · exact hfits
    · exact hothers other (.inr ho)
  refine ⟨_, op.wire, Batch.decode_encode hall, List.length_map _, ?_, wire_event hevent, rfl, ?_⟩
  · rw [List.getElem?_map, List.getElem?_append_right (Nat.le_refl _), Nat.sub_self]
    rfl
  · exact payload_wire hdata (hsame.symm ▸ hread)

-- What is sent as a template, a query, a list of animations or changes of interests is received as
-- the same payload in its minimal form. A template that was received is sent as the data that a
-- second reception gives again. Numbers are those that their texts denote.
theorem payloads_survive :
    (∀ t : Template, t.Formed → t.toJson.Exact → (create t).Fits →
      (create t).Carries Template.ofJson? t.minimal) ∧
    (∀ id (request : QueryRequest), Path.AllParsed request.query → (query id request).Fits →
      (query id request).Carries QueryRequest.ofJson? request) ∧
    (∀ id (animations : List Animation), (∀ a ∈ animations, a.Formed ∧ a.toJson.Exact) →
      (animate id animations).Fits → ∃ received, List.Forall₂ Animation.Same received animations ∧
        (animate id animations).Carries (Json.listOf? Animation.ofJson?) received) ∧
    (∀ id (changes : InterestChanges), changes.Formed → changes.toJson.Exact →
      (updateInterests id changes).Fits →
        (updateInterests id changes).Carries InterestChanges.ofJson? changes) ∧
    ∀ (json : Json) (t : Template), json.Sorted → Template.ofJson? json = some t →
      ∃ again, again.toJson = t.toJson ∧ Template.ofJson? t.toJson = some again ∧
        (t.toJson.Exact → (create t).Fits → (create t).Carries Template.ofJson? again) := by
  have hcreate : ∀ t : Template, t.Formed → t.toJson.Exact → (create t).Fits →
      (create t).Carries Template.ofJson? t.minimal := fun t hformed hexact hfits =>
    carries hfits rfl rfl (Json.reread_eq_self _ (Template.sorted_toJson hformed) hexact)
      (Template.reads hformed)
  refine ⟨hcreate, ?_, ?_, ?_, ?_⟩
  · intro id request hpaths hfits
    exact carries hfits rfl rfl (QueryRequest.toJson_reread hpaths) (QueryRequest.reads hpaths)
  · intro id animations hall hfits
    have hsorted : (Json.arr (animations.map Animation.toJson)).Sorted :=
      Json.sortedItems_map fun a ha => Animation.sorted_toJson (hall a ha).1
    have hexact : (Json.arr (animations.map Animation.toJson)).Exact :=
      Json.exactItems_map fun a ha => (hall a ha).2
    refine ⟨animations.map Animation.minimal, ?_, carries hfits rfl rfl
      (Json.reread_eq_self _ hsorted hexact) (Json.listOf?_map fun a ha => Animation.reads (hall a ha).1)⟩
    rw [List.forall₂_map_left_iff, List.forall₂_same]
    exact fun a ha => Animation.same_minimal (hall a ha).1.delay
  · intro id changes hformed hexact hfits
    exact carries hfits rfl rfl (Json.reread_eq_self _ (InterestChanges.sorted_toJson hformed) hexact)
      (InterestChanges.reads hformed)
  · intro json t hjson hread
    obtain ⟨hformed, hsame⟩ := Template.of_ofJson? hread hjson
    exact ⟨t.minimal, hsame, Template.reads hformed, hcreate t hformed⟩

section Ball

def speed : Path := ⟨"speed", [{ kind := .member, value := "speed" }]⟩

def hit : InterestSpec where
  query := [("now", speed)]
  extra := [("priority", .ofSmall 4 (by decide))]

-- The prefab and the parent are empty, and so is the data of the event.
def ball : Template where
  id := "Ball_0"
  prefab := some ""
  component := some "Spin"
  preEvents := [{ event := "Init", data := some .null }]
  parent := some ""
  update := [("speed", .ofSmall 2 (by decide))]
  interests := [("Hit", hit)]

-- The delay is the negative zero.
def spin : Animation where
  path := speed
  target := .ofSmall 3 (by decide)
  duration := .zero
  delay := .finite (.zero true)
  ease := some .easeInQuad

def request : QueryRequest := { query := [("now", speed)], callbackId := some "Callback_0" }

def changes : InterestChanges := [("Hit", none), ("Tick", some hit)]

theorem speed_parsed : Path.AllParsed [("now", speed)] :=
  ⟨List.pairwise_singleton _ _, List.forall_mem_singleton.2 rfl⟩

private theorem hit_formed : hit.Formed ∧ ∀ field ∈ hit.extra, field.2.Sorted :=
  ⟨⟨speed_parsed, List.pairwise_singleton _ _, rfl⟩, List.forall_mem_singleton.2 trivial⟩

private theorem hit_exact : hit.toJson.Exact := by
  apply Json.exact_ofFields
  rw [List.forall_mem_cons]
  exact ⟨⟨trivial, trivial⟩, List.forall_mem_singleton.2 (Number.reread_int _ _)⟩

private theorem ball_formed : ball.Formed where
  update := ⟨List.pairwise_singleton _ _, trivial, trivial⟩
  interests := List.pairwise_singleton _ _
  specs := List.forall_mem_singleton.2 hit_formed
  preEvents := by
    rintro event he data hdata
    rw [List.mem_singleton.1 he] at hdata
    cases hdata
    trivial
  postEvents := fun _ h => nomatch h

private theorem ball_exact : ball.toJson.Exact :=
  ⟨trivial, trivial, ⟨hit_exact, trivial⟩, ⟨⟨trivial, trivial, trivial⟩, trivial⟩,
    ⟨Number.reread_int _ _, trivial⟩, trivial⟩

private theorem spin_formed : spin.Formed :=
  ⟨rfl, trivial, rfl, rfl⟩

private theorem spin_exact : spin.toJson.Exact :=
  have hzero : (Number.float (.zero false)).reread = .float (.zero false) := by decide +kernel
  ⟨hzero, trivial, trivial, Number.reread_int _ _, trivial⟩

private theorem changes_formed : changes.Formed where
  sorted := by decide
  specs := by
    simp only [changes, List.forall_mem_cons, Option.some.injEq, forall_eq', reduceCtorEq, false_implies,
      implies_true, true_and]
    exact ⟨hit_formed, List.forall_mem_nil _⟩

theorem payloads_survive_ball :
    (create ball).Carries Template.ofJson?
      { ball with prefab := none, preEvents := [{ event := "Init" }], parent := none } ∧
    (query "Ball_0" request).Carries QueryRequest.ofJson? request ∧
    (∃ received, List.Forall₂ Animation.Same received [spin] ∧
      (animate "Ball_0" [spin]).Carries (Json.listOf? Animation.ofJson?) received) ∧
    (updateInterests "Ball_0" changes).Carries InterestChanges.ofJson? changes ∧
    ∃ again, again.toJson = ball.minimal.toJson ∧ Template.ofJson? ball.minimal.toJson = some again := by
  obtain ⟨htemplate, hquery, hanimate, hinterests, hagain⟩ := payloads_survive
  refine ⟨htemplate ball ball_formed ball_exact (by decide), hquery _ _ speed_parsed (by decide),
    hanimate _ _ (List.forall_mem_singleton.2 ⟨spin_formed, spin_exact⟩) (by decide),
    hinterests _ _ changes_formed ⟨trivial, hit_exact, trivial⟩ (by decide), ?_⟩
  obtain ⟨again, hsame, hread, -⟩ :=
    hagain ball.toJson ball.minimal (Template.sorted_toJson ball_formed) (Template.reads ball_formed)
  exact ⟨again, hsame, hread⟩

end Ball

end Operation

end SceneLink
