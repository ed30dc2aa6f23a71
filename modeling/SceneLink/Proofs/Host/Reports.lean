import SceneLink.Proofs.Host.Order
import SceneLink.Proofs.Host.Refusal
import SceneLink.Proofs.World.Conditional

namespace SceneLink

namespace World

variable {w : World} {root node : Node} {path : Path} {expr : Expression}

-- An assignment that succeeds gives the value that the write has been asked for.
theorem assign_ok (hok : (w.assign root path expr).result = .ok node) :
    w.valueOf root path expr = .ok node ∧ (w.set root path node).result = .ok () := by
  have hreading : (w.reading fun w => w.valueOf root path expr).run w.scene =
      (w.valueOf root path expr, w.scene) := rfl
  unfold assign runEdit at hok
  unfold set runEdit
  rw [Edit.bind_run, hreading] at hok
  cases hvalue : w.valueOf root path expr with
  | error e =>
      rw [hvalue] at hok
      cases hok
  | ok value =>
      rw [hvalue] at hok
      dsimp only at hok
      rw [Edit.bind_run] at hok
      rcases hrun : (w.setNode root path value).run w.scene with ⟨result, t⟩
      rw [hrun] at hok
      cases result with
      | error e => cases hok
      | ok written =>
          cases hok
          refine ⟨rfl, ?_⟩
          rw [Edit.bind_run, hrun]
          rfl

end World

namespace Host

open Procedure

-- One assignment of an update, with the world that it finds.
structure Attempt where
  world : World
  text : String
  raw : Json

def Attempt.after (object : Handle) (a : Attempt) : World :=
  match Path.parse a.text, Expression.ofJson a.raw with
  | .ok path, .ok expr => (a.world.assign (.object object) path expr).world
  | _, _ => a.world

def attempts (object : Handle) : World → Dict String Json → List Attempt
  | _, [] => []
  | w, (text, raw) :: rest =>
    let attempt : Attempt := ⟨w, text, raw⟩
    attempt :: attempts object (attempt.after object) rest

-- What is reported of an assignment: its path with the value, if a report is asked for.
def Attempt.report? (object : Handle) (a : Attempt) : Option (String × Json) :=
  match Path.parse a.text, Expression.ofJson a.raw with
  | .ok path, .ok expr => match (a.world.assign (.object object) path expr).result with
    | .ok node => if expr.report then some (a.text, a.world.registry.toJson node) else none
    | .error _ => none
  | _, _ => none

-- An assignment that asks for a report and succeeds: its write is made, or a conditional step skips it.
def Attempt.Reports (object : Handle) (a : Attempt) (entry : String × Json) : Prop :=
  ∃ path expr node, Path.parse a.text = .ok path ∧ Expression.ofJson a.raw = .ok expr ∧ expr.report = true ∧
    (a.world.assign (.object object) path expr).result = .ok node ∧
    entry = (a.text, a.world.registry.toJson node) ∧
    (a.world.Writes (.object object) path node ∨
      a.world.Skips (.object object) path node ∧ ∃ step ∈ path.steps, step.conditional = true)

section Assignments

variable {h : Host} {object : Handle} {a : Attempt} {entry : String × Json}

theorem Attempt.reports (hreport : a.report? object = some entry) : a.Reports object entry := by
  unfold Attempt.report? at hreport
  split at hreport
  · next path expr hpath hexpr =>
    split at hreport
    · next node hnode =>
      split at hreport
      · next hasked =>
        cases hreport
        refine ⟨path, expr, node, hpath, hexpr, hasked, hnode, rfl, ?_⟩
        have hset := (World.assign_ok hnode).2
        rcases World.writes_or_skips hset with hwrites | hskips
        · exact .inl hwrites
        · refine .inr ⟨hskips, hskips.conditional fun hnil => ?_⟩
          rw [World.set_nil hnil] at hset
          cases hset
      · cases hreport
    · cases hreport
  · cases hreport

theorem assign_attempt (object : Handle) (text : String) (raw : Json) (h : Host) :
    (assign object text raw h).value.2 = { h with world := Attempt.after object ⟨h.world, text, raw⟩ } ∧
      (match (assign object text raw h).value.1 with
        | .ok (some json) => some (text, json)
        | _ => none) = Attempt.report? object ⟨h.world, text, raw⟩ := by
  rw [assign_value]
  unfold Attempt.after Attempt.report?
  dsimp only
  cases Path.parse text with
  | error e => exact ⟨rfl, rfl⟩
  | ok path =>
      cases Expression.ofJson raw with
      | error e => exact ⟨rfl, rfl⟩
      | ok expr =>
          refine ⟨rfl, ?_⟩
          dsimp only
          cases (h.world.assign (.object object) path expr).result with
          | error e => rfl
          | ok node => cases expr.report <;> rfl

-- The reports are those of the attempts, in their order.
theorem applyUpdate_reports (id : String) (object : Handle) (assignments : Dict String Json) (h : Host) :
    (applyUpdate id object assignments h).value.1 =
      .ok ((attempts object h.world assignments).filterMap (·.report? object)) := by
  induction assignments generalizing h with
  | nil => rfl
  | cons assignment rest ih =>
      obtain ⟨text, raw⟩ := assignment
      obtain ⟨hafter, hreport⟩ := assign_attempt object text raw h
      rw [applyUpdate_cons, ih, hafter, attempts, List.filterMap_cons, ← hreport]
      dsimp only [Except.map]
      cases (assign object text raw h).value.1 with
      | error e => rfl
      | ok json => cases json <;> rfl

end Assignments

section Sending

-- What is sent from an outbox on says nothing of updates.
def Unreported (start : Outbox) (h : Host) : Prop :=
  ∃ ops, h.outbox = start.posts ops ∧ ∀ op ∈ ops, op.event ≠ .custom "Updated"

variable {start : Outbox} {h : Host}

private theorem send_unreported {op : Operation} (hop : op.event ≠ .custom "Updated") :
    Keeps (Unreported start) (send op) := by
  refine keeps_iff.2 fun h ⟨ops, houtbox, hops⟩ => ⟨ops ++ [op], ?_, ?_⟩
  · rw [send_state, Outbox.posts, List.foldl_append]
    exact congrArg (Outbox.posted · op) houtbox
  · exact List.forall_mem_append.2 ⟨hops, List.forall_mem_singleton.2 hop⟩

private theorem query_unreported (id : String) (request : QueryRequest) : Keeps (Unreported start) (query id request) := by
  refine succeeds_get.keeps.bind fun _ => ((looks_ofExcept _).meets _).bind fun object => ?_
  refine (succeeds_log _).keeps.bind fun results => ?_
  cases request.callbackId with
  | none => exact (succeeds_log _).keeps
  | some callbackId => exact send_unreported nofun

private theorem animate_unreported (id : String) (animations : List Animation) :
    Keeps (Unreported start) (animate id animations) :=
  keeps_get fun _ hh => (looks_ofExcept _).bind_restores hh fun _ =>
    (succeeds_set (by exact hh)).keeps.restores hh

private theorem updateInterests_unreported (id : String) (changes : InterestChanges) :
    Keeps (Unreported start) (updateInterests id changes) :=
  keeps_get fun _ hh => (looks_ofExcept _).bind_restores hh fun _ =>
    (succeeds_set (by exact hh)).keeps.restores hh

private theorem destroy_unreported (id : String) : Keeps (Unreported start) (destroy id) := by
  refine keeps_get fun h hh => (looks_ofExcept _).bind_restores hh fun _ => ?_
  refine (looks_log _).bind_restores hh fun data => restores_set (by exact hh) ?_
  exact (succeeds_log _).keeps.bind fun _ => send_unreported nofun

private theorem log_unreported (data : Dict String Json) : Keeps (Unreported start) (log data) := by
  unfold log
  split
  · exact (succeeds_log _).keeps
  · exact (looks_ofExcept (.error _)).meets _

theorem apply_unreported {op : Operation} (hcreate : op.event ≠ .create) (hupdate : op.event ≠ .update) :
    Keeps (Unreported start) (apply op) := by
  have hpayload {α β : Type} (read : Json → Option α) {f : α → Action β}
      (hf : ∀ a, Keeps (Unreported start) (f a)) : Keeps (Unreported start) (payload op read >>= f) :=
    ((looks_ofExcept _).meets _).bind hf
  have hid {β : Type} {f : String → Action β} (hf : ∀ id, Keeps (Unreported start) (f id)) :
      Keeps (Unreported start) (Procedure.ofExcept (requireId op) >>= f) :=
    ((looks_ofExcept _).meets _).bind hf
  unfold apply
  cases hop : op.event with
  | create => exact absurd hop hcreate
  | update => exact absurd hop hupdate
  | query => exact hid fun id => hpayload _ (query_unreported id)
  | animate => exact hid fun id => hpayload _ (animate_unreported id)
  | updateInterests => exact hid fun id => hpayload _ (updateInterests_unreported id)
  | destroy => exact hid destroy_unreported
  | setGlobals => exact hpayload _ fun globals => (succeeds_modify fun _ hh => by exact hh).keeps
  | log => exact hpayload _ log_unreported
  | callback | started | created | destroyed | custom => exact (looks_ofExcept (.error _)).meets _

end Sending

section Reporting

variable {h k : Host}

private theorem report_state (id : String) (reported : Dict String Json) (h : Host) :
    (report id reported h).value.2 = h.posts (reports id reported) := by
  unfold report reports
  split
  · rfl
  · exact send_state h _

private theorem outbox_of_still (hs : Still h k) : k.outbox = h.outbox := by
  obtain ⟨scene, rfl⟩ := hs
  rfl

theorem update_outbox {id : String} {object : Handle} (hobject : h.requireObject id = .ok object)
    (assignments : Dict String Json) : (update id assignments h).value.2.outbox =
      h.outbox.posts (reports id ((attempts object h.world assignments).filterMap (·.report? object))) := by
  obtain ⟨k, reported, hupdate, hstill⟩ := applyUpdate_still id object assignments h
  have hreported := applyUpdate_reports id object assignments h
  rw [hupdate] at hreported
  cases hreported
  unfold update
  rw [bind_value, get_value]
  dsimp only
  rw [bind_value, ofExcept_value, hobject]
  dsimp only
  rw [bind_value, hupdate]
  dsimp only
  rw [report_state]
  change k.outbox.posts _ = _
  rw [outbox_of_still hstill]

theorem sendCreated_state (id : String) (h : Host) :
    ∃ data, (sendCreated id h).value.2 = h.posted { Operation.created id with data } := by
  unfold sendCreated
  rw [bind_value, get_value]
  dsimp only
  rw [bind_value, log_value]
  exact ⟨_, send_state _ _⟩

-- The host when the assignments and events of a new object are done, and nothing of it was told yet.
def settled (h : Host) (template : Template) (object : Handle) : Host :=
  let k := (applyUpdate template.id object template.update h).value.2
  (deliver object template.postEvents { k with
    world.registry := k.world.registry.mapInterests template.id fun _ => template.interests }).value.2

theorem settled_still (h : Host) (template : Template) (object : Handle) :
    Still { h with world.registry := h.world.registry.mapInterests template.id fun _ => template.interests }
      (h.settled template object) := by
  obtain ⟨k, reported, hupdate, scene, rfl⟩ := applyUpdate_still template.id object template.update h
  unfold settled
  rw [hupdate]
  obtain ⟨last, hlast⟩ := deliver_still object template.postEvents { h.setScene scene with
    world.registry := h.world.registry.mapInterests template.id fun _ => template.interests }
  exact ⟨last, hlast⟩

theorem configure_settled (template : Template) (object : Handle) (h : Host) :
    (configure template object h).value = ((do
      sendCreated template.id
      report template.id ((attempts object h.world template.update).filterMap (·.report? object)) :
        Action Unit) (h.settled template object)).value := by
  obtain ⟨k, reported, hupdate, -⟩ := applyUpdate_still template.id object template.update h
  have hreported := applyUpdate_reports template.id object template.update h
  rw [hupdate] at hreported
  cases hreported
  unfold configure settled
  rw [bind_value, hupdate]
  dsimp only
  rw [bind_value, modify_value]
  dsimp only
  rw [bind_value, orWarn_value]

-- The event of the new object is sent before the reports, or in vain, and then nothing is reported.
theorem configure_outbox (template : Template) (object : Handle) (h : Host) :
    let reported := (attempts object h.world template.update).filterMap (·.report? object)
    ∃ data, (configure template object h).value.2.outbox =
        h.outbox.posts [{ Operation.created template.id with data }] ∨
      (configure template object h).value.2.outbox =
        h.outbox.posts ({ Operation.created template.id with data } :: reports template.id reported) := by
  intro reported
  obtain ⟨data, hsent⟩ := sendCreated_state template.id (h.settled template object)
  refine ⟨data, ?_⟩
  have hsettled : (h.settled template object).outbox = h.outbox :=
    (outbox_of_still (h.settled_still template object)).trans rfl
  rw [configure_settled, bind_value, ← hsettled]
  rcases hrun : (sendCreated template.id (h.settled template object)).value with ⟨result, t⟩
  rw [hrun] at hsent
  cases hsent
  cases result with
  | error e => exact .inl rfl
  | ok a => exact .inr (congrArg Host.outbox (report_state template.id reported _))

-- An operation with assignments to make: an update of an object, in the world as it is, or the creation of
-- one, in the world where the new object hangs in its place. The event of a new object is sent before the
-- reports.
inductive Assigns (h : Host) (op : Operation) :
    String → Handle → World → Dict String Json → List Operation → Prop where
  | update {id : String} {object : Handle} {assignments : Dict String Json} (hevent : op.event = .update)
      (hid : nonEmpty? op.id = some id) (hpayload : op.payload Json.fields? = .ok assignments)
      (hobject : h.requireObject id = .ok object) : Assigns h op id object h.world assignments []
  | create {template : Template} {object : Handle} {placed : Host} (hevent : op.event = .create)
      (hpayload : op.payload Template.ofJson? = .ok template)
      (hplace : (place template h).value = (.ok object, placed)) (data : Option Json) :
      Assigns h op template.id object
        (hungIn template object (deliver object template.preEvents placed).value.2).world template.update
        [{ Operation.created template.id with data }]

-- What an operation sends says nothing of updates, or it ends with one event that does.
inductive Says (h : Host) (op : Operation) : List Operation → Prop where
  | nothing {ops : List Operation} (hops : ∀ sent ∈ ops, sent.event ≠ .custom "Updated") : Says h op ops
  | reports {id : String} {object : Handle} {w : World} {assignments : Dict String Json}
      {before : List Operation} {reported : Dict String Json}
      (hassigns : Assigns h op id object w assignments before)
      (hreported : reported = (attempts object w assignments).filterMap (·.report? object))
      (hentries : ∀ entry ∈ reported, ∃ attempt ∈ attempts object w assignments, attempt.Reports object entry)
      (hne : reported ≠ []) : Says h op (before ++ [Operation.named Event.updated.name id (.record reported)])

theorem says_reports {op : Operation} {id : String} {object : Handle} {w : World} {assignments : Dict String Json}
    {before : List Operation} (hassigns : Assigns h op id object w assignments before) :
    Says h op (before ++ reports id ((attempts object w assignments).filterMap (·.report? object))) := by
  unfold reports
  split
  · refine .nothing fun sent hsent => ?_
    rw [List.append_nil] at hsent
    cases hassigns with
    | update => cases hsent
    | create hevent hpayload hplace data =>
        rw [List.mem_singleton.1 hsent]
        exact nofun
  · next hne =>
    refine .reports hassigns rfl (fun entry hentry => ?_) hne
    obtain ⟨attempt, hattempt, hreport⟩ := List.mem_filterMap.1 hentry
    exact ⟨attempt, hattempt, attempt.reports hreport⟩

-- What an update of an object sends are its reports.
theorem apply_update_outbox {op : Operation} {id : String} {object : Handle} {assignments : Dict String Json}
    (hevent : op.event = .update) (hid : nonEmpty? op.id = some id)
    (hpayload : op.payload Json.fields? = .ok assignments) (hobject : h.requireObject id = .ok object) :
    (apply op h).value.2.outbox =
      h.outbox.posts (reports id ((attempts object h.world assignments).filterMap (·.report? object))) := by
  have hvalue := apply_checked (h := h) op Json.fields? update (by
    unfold apply
    rw [hevent])
  rw [hvalue, hid, hpayload]
  exact update_outbox hobject assignments

theorem apply_update_says {op : Operation} (hevent : op.event = .update) :
    ∃ ops, (apply op h).value.2.outbox = h.outbox.posts ops ∧ Says h op ops := by
  rcases apply_addressed (h := h) op Json.fields? update (by unfold apply; rw [hevent])
      (fun _ _ => rfl) with ⟨-, hsame⟩ | ⟨id, assignments, entry, hid, hpayload, hentry, -⟩
  · rw [hsame]
    exact ⟨[], rfl, .nothing nofun⟩
  · have hobject : h.requireObject id = .ok entry.handle := by rw [requireObject_eq, hentry]
    exact ⟨_, apply_update_outbox hevent hid hpayload hobject,
      says_reports (.update hevent hid hpayload hobject)⟩

theorem hungIn_still (template : Template) (object : Handle) (h : Host) : Still h (hungIn template object h) := by
  unfold hungIn
  split
  · exact .refl h
  · exact attach_still _ _ _ h

theorem place_cases (template : Template) (h : Host) : (∃ e, (place template h).value = (.error e, h)) ∨
    ∃ object placed, (place template h).value = (.ok object, placed) ∧ placed.outbox = h.outbox := by
  rcases place_value template h with ⟨e, he⟩ | ⟨object, scene, hplace, -, -⟩
  · exact .inl ⟨e, he⟩
  · exact .inr ⟨object, _, hplace, rfl⟩

theorem apply_create_says {op : Operation} (hevent : op.event = .create) :
    ∃ ops, (apply op h).value.2.outbox = h.outbox.posts ops ∧ Says h op ops := by
  have hnothing : Says h op [] := .nothing nofun
  unfold apply
  rw [hevent]
  dsimp only
  rw [bind_value, payload_value]
  cases hpayload : op.payload Template.ofJson? with
  | error e => exact ⟨[], rfl, hnothing⟩
  | ok template =>
      dsimp only [Except.mapError]
      rcases place_cases template h with ⟨e, he⟩ | ⟨object, placed, hplace, houtbox⟩
      · rw [create_refused he]
        exact ⟨[], rfl, hnothing⟩
      · rw [create_placed hplace]
        let settled := hungIn template object (deliver object template.preEvents placed).value.2
        have hsettled : settled.outbox = h.outbox :=
          (outbox_of_still ((deliver_still _ _ _).trans (hungIn_still _ _ _))).trans houtbox
        obtain ⟨data, hcreated | hreported⟩ := configure_outbox template object settled
        · refine ⟨_, hcreated.trans (congrArg (Outbox.posts · _) hsettled), .nothing fun sent hsent => ?_⟩
          rw [List.mem_singleton.1 hsent]
          exact nofun
        · exact ⟨_, hreported.trans (congrArg (Outbox.posts · _) hsettled),
            says_reports (.create hevent hpayload hplace data)⟩

end Reporting

-- An operation sends at most one event on updates. It is the last, and a new object has been announced before
-- it. What it reports are the assignments that ask for it and succeed, in their order: each of them has been
-- written, or a conditional step of its path has skipped the write.
theorem updates_reported (h : Host) (op : Operation) :
    ∃ ops, (apply op h).value.2.outbox = h.outbox.posts ops ∧ Says h op ops := by
  by_cases hcreate : op.event = .create
  · exact apply_create_says hcreate
  · by_cases hupdate : op.event = .update
    · exact apply_update_says hupdate
    · obtain ⟨ops, houtbox, hops⟩ : Unreported h.outbox (apply op h).value.2 :=
        keeps_iff.1 (apply_unreported hcreate hupdate) h ⟨[], rfl, nofun⟩
      exact ⟨ops, houtbox, .nothing hops⟩

-- An entity has no component of this name, so there is nothing to be written.
section Unwritten

def bare : Host := { (Host.start {} {} {}).value with world := World.twins }

def color : Path where
  text := "component:Mesh?/color"
  steps := [{ kind := .component, value := "Mesh", conditional := true }, .ofMember "color"]

def red : Json :=
  .obj [("_expr_", .obj [("op", .str "set"), ("reportUpdate", .bool true), ("value", .str "red")])]

def reddened : Expression := .change { op := "set", value := .str "red", report := true }

def paint : Attempt := ⟨World.twins, "component:Mesh?/color", red⟩

theorem parse_color : Path.parse paint.text = .ok color := by rfl

theorem ofJson_red : Expression.ofJson paint.raw = .ok reddened := by rfl

theorem report?_paint : paint.report? 0 = some ("component:Mesh?/color", .str "red") := by
  unfold Attempt.report?
  rw [parse_color, ofJson_red]
  rfl

def painting (raw : Json) : Operation :=
  { event := .update, id := some "A", data := some (.obj [("component:Mesh?/color", raw)]) }

theorem reported_unwritten : ∃ (h : Host) (op : Operation) (object : Handle) (path : Path) (node : Node),
    Assigns h op "A" object h.world [("component:Mesh?/color", red)] [] ∧
    Path.parse "component:Mesh?/color" = .ok path ∧
    (apply op h).value.2.outbox = h.outbox.posts
      [Operation.named Event.updated.name "A" (.record [("component:Mesh?/color", .str "red")])] ∧
    (paint.after object = h.world ∧ ¬h.world.Writes (.object object) path node) := by
  have hreport : Attempt.report? 0 ⟨bare.world, "component:Mesh?/color", red⟩ = _ := report?_paint
  have hreports : (attempts 0 bare.world [("component:Mesh?/color", red)]).filterMap (·.report? 0) =
      [("component:Mesh?/color", .str "red")] := by
    rw [attempts, attempts, List.filterMap_cons, hreport]
    rfl
  have hassigns : Assigns bare (painting red) "A" 0 bare.world [("component:Mesh?/color", red)] [] :=
    .update rfl rfl rfl rfl
  refine ⟨bare, painting red, 0, color, .value (.str "red"), hassigns, parse_color, ?_, ?_, ?_⟩
  · have houtbox : (apply (painting red) bare).value.2.outbox = bare.outbox.posts (reports "A" _) :=
      apply_update_outbox rfl rfl rfl rfl
    rw [hreports] at houtbox
    exact houtbox
  · unfold Attempt.after
    rw [parse_color, ofJson_red]
    rfl
  · rintro ⟨node, t, hrun⟩
    cases hrun

end Unwritten

end Host

end SceneLink
