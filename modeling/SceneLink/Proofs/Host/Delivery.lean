import SceneLink.Proofs.Host.Sending
import SceneLink.Proofs.Session.Boundaries

namespace SceneLink

namespace Operation

-- The operation with data that is null left out.
def plain (op : Operation) : Operation := { op with data := op.data.filter fun json => !json.isNull }

-- The operation as it is read where its text arrives: every number is the one that its text
-- denotes.
def heard (op : Operation) : Operation :=
  { op.plain with data := op.plain.data.map (Json.mapNumbers Number.reread) }

variable {op : Operation}

theorem plain_eq_self (h : op.plain.data.isSome) : op.plain = op := by
  obtain ⟨event, id, data⟩ := op
  obtain ⟨held, hheld⟩ := Option.isSome_iff_exists.1 h
  change data.filter _ = some held at hheld
  unfold plain
  rw [hheld, Option.eq_some_of_filter_eq_some hheld]

theorem Ordered.wire_eq_heard (h : op.Ordered) : op.wire = op.heard := by
  obtain ⟨event, id, data⟩ := op
  unfold wire
  rw [show Event.ofName event.name = event from h.settled]
  cases data with
  | none => rfl
  | some data =>
      unfold heard plain
      rw [Option.map_some, Json.reread_eq_mapNumbers data (h.data data rfl)]
      cases data <;> rfl

theorem Ordered.wire_eq_plain (h : op.Ordered) (hexact : ∀ data ∈ op.data, data.Exact) :
    op.wire = op.plain := by
  rw [Batch.wire_eq_normal fun data hdata => ⟨h.data data hdata, hexact data hdata⟩]
  unfold normal
  rw [show Event.ofName op.event.name = op.event from h.settled]
  rfl

end Operation

-- A batch of one operation is malformed if its text in brackets is.
theorem Batch.decode_malformed {op : Operation} (hne : Text.trim op.render ≠ [])
    (hread : Json.parseChars? ('[' :: Text.trim op.render ++ [']']) = none) :
    decode (encode [op]) = ⟨.error .malformedBatch, []⟩ := by
  have hentries : entries? (encode [op]) = none := by
    unfold entries?
    rw [toList_encode]
    change (if Text.trim op.render = [] then _ else _) = none
    rw [if_neg hne]
    change (Json.parseChars? ('[' :: Text.trim op.render ++ [']'])).bind Json.items? = none
    rw [hread]
    rfl
  unfold decode
  rw [hentries]
  rfl

namespace Host

structure Delivers (ops : List Operation) (batch : Handover) : Prop where
  operations : batch.operations = ops.map Operation.text
  decoded : (∀ op ∈ ops, op.Fits) →
    Batch.decode (Batch.join batch.operations) = ⟨.ok (ops.map Operation.heard), []⟩
  -- Numbers that their texts denote come back as they are.
  exact : (∀ op ∈ ops, op.Fits) → (∀ op ∈ ops, ∀ data ∈ op.data, data.Exact) →
    Batch.decode (Batch.join batch.operations) = ⟨.ok (ops.map Operation.plain), []⟩

theorem delivers {ops : List Operation} {batch : Handover} (hops : ∀ op ∈ ops, op.Ordered)
    (h : batch.operations = ops.map Operation.text) : Delivers ops batch := by
  have hdecode (hfits : ∀ op ∈ ops, op.Fits) :
      Batch.decode (Batch.join batch.operations) = ⟨.ok (ops.map Operation.wire), []⟩ := by
    rw [h]
    exact Batch.decode_encode hfits
  refine ⟨h, fun hfits => ?_, fun hfits hexact => ?_⟩
  · rw [hdecode hfits, List.map_congr_left fun op hop => (hops op hop).wire_eq_heard]
  · rw [hdecode hfits, List.map_congr_left fun op hop => (hops op hop).wire_eq_plain (hexact op hop)]

-- A batch is what stands between two flushes, so what was queued falls into groups as its texts do.
theorem delivers_all {handed : List Handover} {pending : List String} {ops : List Operation}
    (hops : ∀ op ∈ ops, op.Ordered)
    (htexts : handed.flatMap (·.operations) ++ pending = ops.map Operation.text) :
    ∃ groups rest, ops = groups.flatten ++ rest ∧ List.Forall₂ Delivers groups handed ∧
      pending = rest.map Operation.text := by
  induction handed generalizing ops with
  | nil => exact ⟨[], ops, rfl, .nil, htexts⟩
  | cons batch handed ih =>
      rw [List.flatMap_cons, List.append_assoc] at htexts
      obtain ⟨group, more, rfl, hgroup, hmore⟩ := List.map_eq_append_iff.1 htexts.symm
      obtain ⟨hfirst, hrest⟩ := List.forall_mem_append.1 hops
      obtain ⟨groups, rest, rfl, hall, hpending⟩ := ih hrest hmore.symm
      refine ⟨group :: groups, rest, ?_, .cons (delivers hfirst hgroup.symm) hall, hpending⟩
      rw [List.flatten_cons, List.append_assoc]

section Runs

variable {settings : HostSettings} {catalog : Catalog} {transport : Transport}

def greeting (settings : HostSettings) : List Operation :=
  if settings.announceOnAttach then [Operation.started] else []

theorem ordered_greeting (settings : HostSettings) : ∀ op ∈ greeting settings, op.Ordered := by
  intro op hop
  unfold greeting at hop
  split at hop
  · rw [List.mem_singleton.1 hop]
    exact ⟨rfl, fun _ h => nomatch h⟩
  · cases hop

theorem start_cases (settings : HostSettings) (catalog : Catalog) (transport : Transport) :
    ∃ o, (Host.start settings catalog transport).value = { settings, catalog, outbox := o } ∧
      o.texts = (greeting settings).map Operation.text := by
  unfold Host.start greeting
  dsimp only
  split
  · refine ⟨_, announce_value _, ?_⟩
    exact (Outbox.texts_flushed _).trans (Outbox.texts_posted _ _)
  · exact ⟨_, rfl, rfl⟩

theorem ordered_start (hcatalog : catalog.Ordered) : (Host.start settings catalog transport).value.Ordered := by
  obtain ⟨o, hvalue, -⟩ := start_cases settings catalog transport
  rw [hvalue]
  have hscene : Scene.empty.Ordered := fun _ h => nomatch h
  exact ⟨⟨hscene, fun _ _ h => nomatch h⟩, (fun _ h => nomatch h), (fun _ h => nomatch h), hcatalog⟩

-- What arrives may be anything, since it is read from its text.
def Turn.Supplies : Turn → Prop
  | .receive _ => True
  | .act deed _ => Host.Supplies deed

theorem Turn.Supplies.deeds {turn : Turn} (h : turn.Supplies) : ∀ deed ∈ turn.deeds, Host.Supplies deed := by
  cases turn with
  | receive raw => exact supplies_deedsOf raw
  | act deed own => exact List.forall_mem_singleton.2 h

-- Whatever arrives and whatever the program around the host does with data in order, all that is queued leaves
-- in order, in batches that are read as what was queued.
theorem batches_read_back (settings : HostSettings) {catalog : Catalog} (transport : Transport)
    {turns : List Turn} (hcatalog : catalog.Ordered) (hturns : ∀ turn ∈ turns, turn.Supplies) :
    let h := (Host.start settings catalog transport).value
    let k := turns.foldl play h
    ∃ chapters groups rest, Chronicle h chapters k ∧ chapters.map (·.deed) = turns.flatMap Turn.deeds ∧
      greeting settings ++ queued (trailOf chapters) = groups.flatten ++ rest ∧
      List.Forall₂ Delivers groups k.outbox.handed ∧ k.outbox.pending = rest.map Operation.text := by
  intro h k
  have hown : ∀ deed ∈ turns.flatMap Turn.deeds, (∃ op, deed = .apply op) ∨ deed.IsOwn := by
    intro deed hdeed
    obtain ⟨turn, -, hmem⟩ := List.mem_flatMap.1 hdeed
    exact turn_deeds turn deed hmem
  have hdeeds : ∀ deed ∈ turns.flatMap Turn.deeds, Host.Supplies deed := by
    intro deed hdeed
    obtain ⟨turn, hturn, hmem⟩ := List.mem_flatMap.1 hdeed
    exact (hturns turn hturn).deeds deed hmem
  obtain ⟨chapters, hchronicle, hmap, hops⟩ := chronicle_sends (ordered_start hcatalog) hown hdeeds
  rw [← plays_eq] at hchronicle
  have htexts : k.outbox.texts = (greeting settings ++ queued (trailOf chapters)).map Operation.text := by
    obtain ⟨o, hvalue, ho⟩ := start_cases settings catalog transport
    rw [hchronicle.trail.texts, hvalue, ho, List.map_append]
  obtain ⟨groups, rest, hgroups, hall, hpending⟩ :=
    delivers_all (List.forall_mem_append.2 ⟨ordered_greeting settings, hops⟩) htexts
  exact ⟨chapters, groups, rest, hchronicle, hmap, hgroups, hall, hpending⟩

end Runs

-- A component with fields that can be copied into one another, one of which holds a number that is not exact.
section Shelf

def shelf (held : Json) : Scene where
  objects := [.component { typeName := "B", fields := [("f", .null), ("g", .arr [.null]), ("h", held)] }]

theorem shelf_ordered (text : String) : (shelf ((Json.parse? text).getD .null)).Ordered := by
  have hheld : ((Json.parse? text).getD .null).Sorted := by
    cases hread : Json.parse? text with
    | none => exact trivial
    | some json => exact Json.sorted_parse? hread
  generalize (Json.parse? text).getD .null = held at hheld ⊢
  have hnames : Dict.Sorted [("f", ()), ("g", ()), ("h", ())] := by decide
  have hkeys : Dict.Sorted [("f", Json.null), ("g", .arr [.null]), ("h", held)] :=
    Dict.sorted_of_keys_eq (by rfl) hnames
  exact List.forall_mem_singleton.2 ⟨hkeys, trivial, ⟨trivial, trivial⟩, hheld, trivial⟩

def shelved : Host where
  outbox := (Host.start {} {} {}).value.outbox
  world := {
    scene := shelf Json.inexact
    registry := { entries := [("B", { handle := 0 })], names := [(0, "B")] } }

def asking (path : String) : Operation where
  event := .query
  id := some "B"
  data := some (.obj [("callbackID", .str "c"), ("query", .obj [("a", .str path)])])

def answer (data : Json) : Operation := .callback "c" (.obj [("a", data)])

def asked (ops : List Operation) : List Turn :=
  [.act (.arrange (shelf Json.inexact) [] {}) trivial, .act (.register "B" 0) trivial,
    .receive (Batch.encode ops)]

theorem catalog_ordered : Catalog.Ordered {} := ⟨(fun _ _ h => nomatch h), fun _ _ h => nomatch h⟩

theorem asked_supplies (ops : List Operation) : ∀ turn ∈ asked ops, turn.Supplies := by
  have hshelf : (shelf Json.inexact).Ordered := shelf_ordered "1e-24"
  have harranged : Host.Supplies (.arrange (shelf Json.inexact) [] {}) :=
    ⟨hshelf, (fun _ _ h => nomatch h), catalog_ordered⟩
  simp only [asked, List.forall_mem_cons]
  exact ⟨harranged, trivial, trivial, List.forall_mem_nil _⟩

theorem asked_value {ops : List Operation} (hfits : ∀ op ∈ ops, op.Fits) :
    (asked ops).foldl play (Host.start {} {} {}).value =
      (shelved.after ((ops.map Operation.wire).map .apply)).perform .flush :=
  receive_encode hfits shelved

theorem batches_read_back_shelf :
    let turns := asked [.update "B" [("f", .arr [.null])], asking "f"]
    let h := (Host.start {} {} {}).value
    let k := turns.foldl play h
    Catalog.Ordered {} ∧ (∀ turn ∈ turns, turn.Supplies) ∧ k.outbox.handed.length = 2 ∧
      ∃ chapters groups rest, Chronicle h chapters k ∧ chapters.map (·.deed) = turns.flatMap Turn.deeds ∧
        greeting {} ++ queued (trailOf chapters) = groups.flatten ++ rest ∧
        List.Forall₂ Delivers groups k.outbox.handed ∧ k.outbox.pending = rest.map Operation.text := by
  refine ⟨catalog_ordered, asked_supplies _, ?_, batches_read_back {} {} catalog_ordered (asked_supplies _)⟩
  rw [asked_value (by decide)]
  decide +kernel

-- A batch that is read as what was queued for it.
def Intact (ops : List Operation) (batch : Handover) : Prop :=
  batch.operations = ops.map Operation.text ∧
    Batch.decode (Batch.join batch.operations) = ⟨.ok (ops.map Operation.plain), []⟩

theorem not_intact {op : Operation} (hfits : op.Fits) (hdata : op.wire.data.isSome)
    (htext : op.wire.text ≠ op.text) {batch : Handover} (hbatch : batch.operations = [op.text])
    (ops : List Operation) : ¬Intact ops batch := by
  rintro ⟨htexts, hdecode⟩
  obtain ⟨other, rfl, hother⟩ := List.map_eq_singleton_iff.1 (htexts.symm.trans hbatch)
  have hread := Batch.decode_encode (List.forall_mem_singleton.2 hfits)
  rw [hbatch] at hdecode
  have hwire : other.plain = op.wire := by
    have hsame := hdecode.symm.trans hread
    exact (List.cons.inj (Except.ok.inj (congrArg Logged.value hsame))).1
  rw [← hwire] at hdata htext
  rw [Operation.plain_eq_self hdata] at htext
  exact htext hother

def nested : Nat → Json
  | 0 => .null
  | n + 1 => .arr [nested n]

-- Data that fits into a batch is copied one level deeper.
def copying : List Operation :=
  [.update "B" [("f", nested 124)], .update "B" [("g/0", .obj [("_path_", .str "f")])], asking "g"]

theorem malformed_nested :
    Batch.decode (Batch.encode [answer (nested 125)]) = ⟨.error .malformedBatch, []⟩ := by
  have hread : (Json.parseChars? ('[' :: Text.trim (answer (nested 125)).render ++ [']'])).isNone := by
    decide +kernel
  exact Batch.decode_malformed (by decide +kernel) (Option.isNone_iff_eq_none.1 hread)

theorem handed_nested :
    ((shelved.after ((copying.map Operation.wire).map .apply)).perform .flush).outbox.handed.getLast? =
      some ⟨"", [(answer (nested 125)).text], true⟩ := by
  decide +kernel

theorem handed_inexact :
    ((shelved.after (([asking "h"].map Operation.wire).map .apply)).perform .flush).outbox.handed.getLast? =
      some ⟨"", [(answer Json.inexact).text], true⟩ := by
  decide +kernel

-- Neither condition can be dropped: one answer nests too deep to be read at all, and with it its batch is lost,
-- and the number in the other one is not the one that its text denotes.
theorem batches_read_otherwise :
    let h := (Host.start {} {} {}).value
    (∃ turns : List Turn, (∀ turn ∈ turns, turn.Supplies) ∧ ∃ batch ∈ (turns.foldl play h).outbox.handed,
        Batch.decode (Batch.join batch.operations) = ⟨.error .malformedBatch, []⟩) ∧
      ∃ turns : List Turn, (∀ turn ∈ turns, turn.Supplies) ∧ ∃ batch ∈ (turns.foldl play h).outbox.handed,
        ∀ ops, ¬Intact ops batch := by
  refine ⟨⟨asked copying, asked_supplies _, ⟨"", [(answer (nested 125)).text], true⟩, ?_, malformed_nested⟩,
    asked [asking "h"], asked_supplies _, ⟨"", [(answer Json.inexact).text], true⟩, ?_, ?_⟩
  · rw [asked_value (by decide +kernel)]
    exact List.mem_of_getLast? handed_nested
  · rw [asked_value (by decide)]
    exact List.mem_of_getLast? handed_inexact
  · exact not_intact (by decide +kernel) (by decide +kernel) (by decide +kernel) rfl

end Shelf

end Host

end SceneLink
