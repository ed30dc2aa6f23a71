import SceneLink.Operation.Batch
import SceneLink.Proofs.Json.RoundTrip
import SceneLink.Proofs.Text.Trim

namespace SceneLink

namespace Event

-- An event that is known by its name.
def Settled (e : Event) : Prop := ofName e.name = e

theorem isCustom_of_builtIn {name : String} {e : Event} (h : builtIn.get? name = some e) :
    e.isCustom = false := by
  have hall : ∀ entry ∈ builtIn, entry.2.isCustom = false := by decide
  exact hall _ (Dict.mem_of_get? h)

theorem ofName_of_isCustom {name : String} (h : (ofName name).isCustom = true) :
    ofName name = .custom name := by
  unfold ofName at h ⊢
  cases hget : builtIn.get? name with
  | none => rfl
  | some e =>
      rw [hget] at h
      exact absurd ((isCustom_of_builtIn hget).symm.trans h) Bool.false_ne_true

theorem settled_ofName (name : String) : (ofName name).Settled := by
  cases hname : ofName name with
  | custom other =>
      have hother : other = name := by
        unfold ofName at hname
        cases hget : builtIn.get? name with
        | none =>
            rw [hget] at hname
            exact (Event.custom.inj hname).symm
        | some e =>
            have hbuiltIn : e.isCustom = false := isCustom_of_builtIn hget
            rw [hget] at hname
            change e = _ at hname
            rw [hname] at hbuiltIn
            cases hbuiltIn
      rw [hother] at hname ⊢
      exact hname
  | _ => rfl

end Event

namespace Operation

def json (op : Operation) : Json := .obj op.fields

theorem render_json (op : Operation) : op.json.render = op.render := rfl

-- The data may nest this deep: the operation and the batch open one level each.
def Fits (op : Operation) : Prop := ∀ data ∈ op.data, data.depth ≤ 125

instance (op : Operation) : Decidable op.Fits :=
  inferInstanceAs (Decidable (∀ data ∈ op.data, data.depth ≤ 125))

-- The operation that is read where this one was written.
def wire (op : Operation) : Operation where
  event := Event.ofName op.event.name
  id := op.id
  data := (op.data.map Json.reread).filter fun json => !json.isNull

-- The operation without its null data, and with its event known by its name.
def normal (op : Operation) : Operation where
  event := Event.ofName op.event.name
  id := op.id
  data := op.data.filter fun json => !json.isNull

theorem wire_event {op : Operation} (h : op.event.Settled) : op.wire.event = op.event := h

theorem wire_id (op : Operation) : op.wire.id = op.id := rfl

-- Data that is null reads as data that is absent.
theorem wire_data (op : Operation) : op.wire.data.getD .null = ((op.data.map Json.reread).getD .null) := by
  unfold wire
  cases op.data.map Json.reread with
  | none => rfl
  | some data => cases data <;> rfl

theorem depth_json {op : Operation} (h : op.Fits) : op.json.depth ≤ 126 := by
  have hid : Json.depthFields (Json.present "id" (op.id.map Json.str)) = 0 := by
    cases op.id <;> rfl
  have happ : ∀ as bs, Json.depthFields (as ++ bs) = max (Json.depthFields as) (Json.depthFields bs) := by
    intro as bs
    induction as with
    | nil => simp [Json.depthFields]
    | cons a as ih =>
        rw [List.cons_append, Json.depthFields, Json.depthFields, ih, Nat.max_assoc]
  have hdata : Json.depthFields (Json.present "data" op.data) ≤ 125 := by
    cases hd : op.data with
    | none => exact Nat.zero_le _
    | some data =>
        have := h data hd
        simp only [Json.present, Json.depthFields]
        omega
  simp only [json, fields, Json.depth, Json.depthFields, happ, hid]
  omega

theorem get?_fields (op : Operation) :
    let fields := Dict.ofList (Json.rereadFields op.fields)
    Dict.get? fields "event" = some (.str op.event.name) ∧
      Dict.get? fields "id" = op.id.map .str ∧
      Dict.get? fields "data" = op.data.map Json.reread := by
  obtain ⟨event, id, data⟩ := op
  cases id <;> cases data <;>
    simp [fields, Json.present, Json.rereadFields, Json.reread, Dict.ofList, Dict.insertAll,
      Dict.get?_insert, Dict.get?]

theorem ofJson?_reread (op : Operation) : ofJson? op.json.reread = some op.wire := by
  obtain ⟨hevent, hid, hdata⟩ := op.get?_fields
  have hoptional : ∀ (fields : Json.Fields) name, fields name = op.data.map Json.reread →
      fields.optional name some = some op.wire.data := by
    intro fields name h
    unfold Json.Fields.optional wire
    rw [h]
    cases op.data with
    | none => rfl
    | some data =>
        rw [Option.map_some]
        cases data.reread <;> rfl
  have hname : ∀ (fields : Json.Fields) name, fields name = op.id.map .str →
      fields.optional name Json.str? = some op.id := by
    intro fields name h
    unfold Json.Fields.optional
    rw [h]
    cases op.id <;> rfl
  unfold ofJson? json
  rw [Json.reread, Json.ofFields]
  simp only [Json.record?, Json.Fields.required, hevent, hname _ _ hid, hoptional _ _ hdata,
    Option.bind_eq_bind, Option.bind_some]
  rfl

theorem reread_eq_of_render_eq {a b : Json} (h : a.render = b.render) : a.reread = b.reread := by
  have hread : ∀ json : Json, json.render = a.render → json.depth ≤ max a.depth b.depth →
      Json.readValue (2 * a.render.length) (max a.depth b.depth) a.render = some (json.reread, []) := by
    intro json hrender hdepth
    have := Json.readValue_render json (2 * a.render.length) _ [] hdepth
      (by rw [hrender]) (fun _ h => nomatch h)
    rwa [List.append_nil, hrender] at this
  have ha := hread a rfl (Nat.le_max_left _ _)
  rw [hread b h.symm (Nat.le_max_right _ _)] at ha
  exact (Prod.mk.inj (Option.some.inj ha)).1.symm

theorem wire_eq_of_text_eq {a b : Operation} (h : a.text = b.text) : a.wire = b.wire := by
  have hrender : a.json.render = b.json.render := by
    rw [render_json, render_json, ← String.toList_ofList (l := a.render), ← String.toList_ofList (l := b.render)]
    exact congrArg String.toList h
  have hwire := a.ofJson?_reread
  rw [reread_eq_of_render_eq hrender, b.ofJson?_reread] at hwire
  exact (Option.some.inj hwire).symm

def ofText? (text : String) : Option Operation := (Json.parse? text).bind ofJson?

theorem ofText?_text {op : Operation} (h : op.Fits) : ofText? op.text = some op.wire := by
  have hdepth : op.json.depth ≤ Json.maxDepth := by
    have := depth_json h
    unfold Json.maxDepth
    omega
  unfold ofText? Json.parse? text
  rw [String.toList_ofList, ← render_json, Json.parseChars?_render hdepth]
  exact op.ofJson?_reread

end Operation

namespace Batch

theorem renderItems_eq_intercalate (items : List Json) :
    Json.renderItems items = [','].intercalate (items.map Json.render) := by
  match items with
  | [] => rfl
  | [a] => exact List.intercalate_singleton.symm
  | a :: b :: bs =>
      have ih := renderItems_eq_intercalate (b :: bs)
      rw [Json.renderItems_cons_cons, ih]
      simp [List.intercalate_cons_cons]

theorem toList_join (texts : List String) : (join texts).toList = [','].intercalate (texts.map String.toList) :=
  String.toList_ofList

theorem toList_encode (ops : List Operation) :
    (encode ops).toList = Json.renderItems (ops.map Operation.json) := by
  rw [renderItems_eq_intercalate, encode, toList_join, List.map_map, List.map_map]
  congr 1
  apply List.map_congr_left
  intro op _
  exact String.toList_ofList

theorem getLast?_renderItems (op : Operation) (ops : List Operation) :
    (Json.renderItems ((op :: ops).map Operation.json)).getLast? = some '}' := by
  induction ops generalizing op with
  | nil => exact List.getLast?_concat (l := '{' :: Json.renderFields op.fields)
  | cons next ops ih =>
      rw [List.map_cons, List.map_cons, Json.renderItems_cons_cons, List.getLast?_append,
        ← List.map_cons, List.getLast?_cons, ih]
      rfl

theorem depthItems_le {ops : List Operation} (h : ∀ op ∈ ops, op.Fits) :
    Json.depthItems (ops.map Operation.json) ≤ 126 := by
  induction ops with
  | nil => exact Nat.zero_le _
  | cons op ops ih =>
      have hop := Operation.depth_json (h op List.mem_cons_self)
      have hops := ih fun o ho => h o (List.mem_cons_of_mem _ ho)
      rw [List.map_cons, Json.depthItems]
      omega

theorem entries?_encode {ops : List Operation} (h : ∀ op ∈ ops, op.Fits) :
    entries? (encode ops) = some (ops.map fun op => op.json.reread) := by
  have hitems : ∀ items, Json.rereadItems items = items.map Json.reread := by
    intro items
    induction items with
    | nil => rfl
    | cons a as ih => rw [Json.rereadItems, ih]; rfl
  unfold entries?
  rw [toList_encode]
  cases ops with
  | nil => rfl
  | cons op ops =>
      have hne : Json.renderItems ((op :: ops).map Operation.json) ≠ [] := by
        intro hnil
        have := getLast?_renderItems op ops
        rw [hnil] at this
        cases this
      have htrim : Text.trim (Json.renderItems ((op :: ops).map Operation.json)) =
          Json.renderItems ((op :: ops).map Operation.json) := by
        apply Text.trim_eq_self
        · have hhead : ∃ tail, Json.renderItems ((op :: ops).map Operation.json) = '{' :: tail := by
            cases ops with
            | nil => exact ⟨_, rfl⟩
            | cons next ops => exact ⟨_, rfl⟩
          obtain ⟨tail, htail⟩ := hhead
          rw [htail]
          intro c hc
          cases hc
          rfl
        · rw [getLast?_renderItems]
          intro c hc
          cases hc
          rfl
      have hdepth : (Json.arr ((op :: ops).map Operation.json)).depth ≤ Json.maxDepth :=
        Nat.succ_le_succ (depthItems_le h)
      have hparse := Json.parseChars?_render hdepth
      rw [Json.render, Json.reread, hitems, List.map_map] at hparse
      dsimp only
      rw [htrim, if_neg hne, hparse]
      rfl

theorem keepOperations_reread (ops : List Operation) :
    keepOperations (ops.map fun op => op.json.reread) = ⟨ops.map Operation.wire, []⟩ := by
  induction ops with
  | nil => rfl
  | cons op ops ih =>
      rw [List.map_cons, keepOperations, op.ofJson?_reread]
      dsimp only
      rw [ih]
      rfl

theorem decode_encode {ops : List Operation} (h : ∀ op ∈ ops, op.Fits) :
    decode (encode ops) = ⟨.ok (ops.map Operation.wire), []⟩ := by
  unfold decode
  rw [entries?_encode h]
  dsimp only
  rw [keepOperations_reread]
  rfl

theorem decode_join {texts : List String}
    (h : ∀ text ∈ texts, ∃ op : Operation, op.Fits ∧ op.text = text) :
    decode (join texts) = ⟨.ok (texts.filterMap Operation.ofText?), []⟩ := by
  obtain ⟨ops, hfits, htexts, hread⟩ : ∃ ops : List Operation, (∀ op ∈ ops, op.Fits) ∧
      ops.map Operation.text = texts ∧ texts.filterMap Operation.ofText? = ops.map Operation.wire := by
    induction texts with
    | nil => exact ⟨[], fun _ h => (List.not_mem_nil h).elim, rfl, rfl⟩
    | cons text texts ih =>
        obtain ⟨op, hop, rfl⟩ := h text List.mem_cons_self
        obtain ⟨ops, hops, rfl, hread⟩ := ih fun t ht => h t (List.mem_cons_of_mem _ ht)
        refine ⟨op :: ops, List.forall_mem_cons.2 ⟨hop, hops⟩, rfl, ?_⟩
        rw [List.filterMap_cons_some (Operation.ofText?_text hop), hread]
        rfl
  rw [hread, ← htexts]
  exact decode_encode hfits

theorem wire_eq_normal {op : Operation}
    (hdata : ∀ data ∈ op.data, data.Sorted ∧ data.Exact) : op.wire = op.normal := by
  have hmap : op.data.map Json.reread = op.data := by
    cases hd : op.data with
    | none => rfl
    | some data =>
        obtain ⟨hsorted, hexact⟩ := hdata data hd
        rw [Option.map_some, Json.reread_eq_self data hsorted hexact]
  unfold Operation.wire Operation.normal
  rw [hmap]

-- A batch comes back entry by entry and in order, and nothing is logged. The keys of objects are in
-- order, and every number is the one that its text denotes.
theorem decode_encode_normal {ops : List Operation} (hfits : ∀ op ∈ ops, op.Fits)
    (hdata : ∀ op ∈ ops, ∀ data ∈ op.data, data.Sorted ∧ data.Exact) :
    decode (encode ops) = ⟨.ok (ops.map Operation.normal), []⟩ := by
  rw [decode_encode hfits]
  have hmap : ops.map Operation.wire = ops.map Operation.normal :=
    List.map_congr_left fun op hop => wire_eq_normal (hdata op hop)
  rw [hmap]

-- Strings hold commas, brackets, quotes and line breaks; one event is known by another name.
theorem decode_encode_punctuation :
    let data : Json := .obj [("a,b", .str "],[\n\""), ("c", .arr [.null, .ofSmall 3 (by decide)])]
    decode (encode [⟨.custom "Create", some "\"x\",", some data⟩, ⟨.update, none, some .null⟩]) =
      ⟨.ok [⟨.create, some "\"x\",", some data⟩, ⟨.update, none, none⟩], []⟩ := by
  apply decode_encode_normal
  · simp only [List.forall_mem_cons, Operation.Fits, Option.mem_some_iff, forall_eq']
    exact ⟨by decide, by decide, List.forall_mem_nil _⟩
  · simp only [List.forall_mem_cons, Option.mem_some_iff, forall_eq']
    refine ⟨⟨⟨by decide, trivial, ⟨trivial, trivial, trivial⟩, trivial⟩, trivial,
      ⟨trivial, ?_, trivial⟩, trivial⟩, ⟨trivial, trivial⟩, List.forall_mem_nil _⟩
    exact Number.reread_int _ _

end Batch

end SceneLink
