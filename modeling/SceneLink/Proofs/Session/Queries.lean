import SceneLink.Proofs.Session.Answers

namespace SceneLink

deriving instance DecidableEq for Answer

def Caller.replies {H : Type} (c : Caller H) : List (Request H) → List Reply
  | [] => []
  | request :: rest =>
    (c.respond request).reply :: (c.respond request).after.collect.2.replies rest

namespace Session

variable {H : Type} {s : Session H}

def runsFor (s : Session H) (name : String) : List (H × Occasion) := Flow.ranFor name s.ran

-- The host applied a query after all that was sent before it. If it held the object then, the
-- handler has run once, for the results of the query; otherwise it still waits. What it received
-- for the results is as `Reads` says.
def Answered (s : Session H) (Reads : Json → Json → Prop) (q : Question H)
    (before : List (Asked H)) : Prop :=
  ∃ earlier later, s.deeds = earlier ++ .apply q.operation.wire :: later ∧
    applied earlier = sentFor before ∧
    match (s.origin.after earlier).world.registry.get? q.id with
    | some handle => ∃ data, s.runsFor q.callbackId = [(q.handler, .answer data)] ∧
        s.caller.callbacks.get? q.callbackId = none ∧
        Reads (.record ((s.origin.after earlier).world.query (.object handle) q.paths).value) data
    | none => s.runsFor q.callbackId = [] ∧
        s.caller.callbacks.get? q.callbackId = some (.once q.handler)

theorem answered (hs : s.Reachable) (hquiet : s.Quiet) {before after : List (Asked H)} {a : Asked H}
    (hasked : s.asked = before ++ a :: after) {q : Question H} (hq : a.question? = some q)
    (hparsed : Path.AllParsed q.paths) (hclear : ∀ b ∈ after, b.request ≠ .clear q.callbackId)
    (hnames : ∀ b ∈ s.asked, q.callbackId ∉ b.names) :
    s.Answered (fun results data => data = results.reread) q before := by
  obtain ⟨hf, -⟩ := hs.flow
  obtain ⟨hrising, hfalling⟩ := hs.quiet_flow hquiet
  have hmem : a ∈ s.asked := by
    rw [hasked]
    exact List.mem_append_right _ List.mem_cons_self
  have hid : q.id ≠ "" := Flow.question_id_ne hf hmem hq
  cases Flow.course hf hasked hq hclear hnames with
  | travelling pre post hup =>
      change s.rising = _ at hup
      rw [hrising] at hup
      simp at hup
  | answered earlier later hdeeds hbefore h =>
      refine ⟨earlier, later, hdeeds, hbefore, ?_⟩
      have hanswers := Flow.answers_question hparsed hid (s.origin.after earlier)
      have hdown : answersTo q.callbackId s.flow.down = [] := by
        change answersTo q.callbackId s.falling = []
        rw [hfalling]
        rfl
      have hanswering := h.answering
      change Flow.Answering q ((s.origin.after earlier).answers q.operation.wire)
        (s.caller.callbacks.get? q.callbackId) _ (s.runsFor q.callbackId) at hanswering
      rw [hdown, hanswers] at hanswering
      cases hheld : (s.origin.after earlier).world.registry.get? q.id with
      | none =>
          rw [hheld] at hanswering
          cases hanswering with
          | waiting hentry hcoming hran => exact ⟨hran, hentry⟩
          | heard op hop => cases hop
      | some handle =>
          rw [hheld] at hanswering
          cases hanswering with
          | waiting hentry hcoming hran => cases hcoming
          | heard op hop hentry hcoming hran =>
              have hcallback := (List.cons.inj hop).1
              refine ⟨_, hran, hentry, ?_⟩
              rw [← hcallback, Flow.data_callback]

-- The moment at which the host applies an operation is determined by what it applied before.
theorem earlier_unique {early late later latest : List Deed} {op other : Operation}
    (h : early ++ .apply op :: later = late ++ .apply other :: latest)
    (happlied : applied early = applied late) : early = late := by
  induction early generalizing late with
  | nil =>
      cases late with
      | nil => rfl
      | cons deed late =>
          rw [← (List.cons.inj h).1] at happlied
          cases happlied
  | cons deed early ih =>
      cases late with
      | nil =>
          rw [(List.cons.inj h).1] at happlied
          cases happlied
      | cons first late =>
          obtain ⟨rfl, hrest⟩ := List.cons.inj h
          refine congrArg (deed :: ·) (ih hrest ?_)
          cases deed with
          | apply op => exact (List.cons.inj happlied).2
          | _ => exact happlied

theorem Answered.mono {P Q : Json → Json → Prop} {q : Question H} {before : List (Asked H)}
    (h : s.Answered P q before) (hPQ : ∀ results data, P results data → Q results data) :
    s.Answered Q q before := by
  obtain ⟨earlier, later, hdeeds, hbefore, hanswer⟩ := h
  refine ⟨earlier, later, hdeeds, hbefore, ?_⟩
  split at hanswer
  · obtain ⟨data, hruns, hentry, hreads⟩ := hanswer
    exact ⟨data, hruns, hentry, hPQ _ _ hreads⟩
  · exact hanswer

-- Data that changes when it is read again is not the results themselves.
theorem not_answered_eq {q : Question H} {before : List (Asked H)}
    (h : s.Answered (fun results data => data = results.reread) q before)
    (hne : s.runsFor q.callbackId ≠ [])
    (hdata : ∀ run ∈ s.runsFor q.callbackId, ∀ data, run.2 = .answer data → data.reread ≠ data) :
    ¬s.Answered (fun results data => data = results) q before := by
  rintro ⟨late, latest, hlate, hbefore, hsame⟩
  obtain ⟨early, later, hearly, hother, hanswer⟩ := h
  have hmoment : early = late := earlier_unique (hearly.symm.trans hlate) (hother.trans hbefore.symm)
  subst hmoment
  split at hanswer
  · next handle hheld =>
    rw [hheld] at hsame
    obtain ⟨data, hruns, -, hread⟩ := hanswer
    obtain ⟨received, hreceived, -, hresults⟩ := hsame
    rw [hruns] at hreceived hdata
    have heq : data = received := by
      injection hreceived with hrun
      injection hrun with _ hoccasion
      injection hoccasion
    refine hdata _ (List.mem_singleton_self _) data rfl ?_
    rw [heq] at hread ⊢
    exact (congrArg Json.reread hresults).trans hread.symm
  · exact hne hanswer.1

section Requests

def asks (s : Session H) : List (Request H) → Session H
  | [] => s
  | request :: rest => (s.ask request).ship.asks rest

theorem Reachable.asks (hs : s.Reachable) {exchange : List (Asked H)}
    (hplain : ∀ a ∈ exchange, a.request.IsPlain)
    (hreplies : s.caller.replies (exchange.map (·.request)) = exchange.map (·.reply))
    (hfits : ∀ a ∈ exchange, ∀ op ∈ a.sent, op.Fits) :
    (s.asks (exchange.map (·.request))).Reachable ∧
      (s.asks (exchange.map (·.request))).asked = s.asked ++ exchange := by
  induction exchange generalizing s with
  | nil => exact ⟨hs, (List.append_nil _).symm⟩
  | cons a rest ih =>
      obtain ⟨request, reply⟩ := a
      obtain ⟨hreply, hrest⟩ := List.cons.inj hreplies
      have hrequest : request.IsPlain := hplain _ List.mem_cons_self
      have hask := ask_eq hs.flow.2.caller hrequest
      have hnext : (s.ask request).ship.Reachable := by
        refine hs.ask hrequest fun op hop => hfits _ List.mem_cons_self op ?_
        rw [Caller.sent_respond, hreply] at hop
        exact hop
      have hlast : (s.ask request).ship.caller.replies (rest.map (·.request)) = rest.map (·.reply) := by
        rw [hask]
        exact hrest
      obtain ⟨hreach, hasked⟩ := ih hnext (fun a ha => hplain a (List.mem_cons_of_mem _ ha)) hlast
        fun a ha => hfits a (List.mem_cons_of_mem _ ha)
      refine ⟨hreach, hasked.trans ?_⟩
      rw [hask]
      change s.asked ++ [⟨request, (s.caller.respond request).reply⟩] ++ rest = _
      rw [List.append_assoc, show (s.caller.respond request).reply = reply from hreply]
      rfl

-- The one batch on its way to the host holds all that was sent and not applied yet.
theorem opsOf_up (hs : s.Reachable) {raw : String} (hup : s.up = [raw])
    (hpending : s.caller.outbox.pending = []) : applied s.deeds ++ opsOf raw = sentFor s.asked := by
  have hrising : s.rising = opsOf raw := by
    unfold rising Outbox.texts
    rw [hup, hs.handed.1, hpending, List.flatMap_singleton]
    exact List.append_nil _
  rw [← hrising]
  exact Flow.applied_append_up hs.flow.1

end Requests

section Crossed

def slot : Path where
  text := "position/0"
  steps := [{ kind := .member, value := "position" }, { kind := .index, value := "0" }]

def crossedExchange : List (Asked Unit) :=
  [⟨.create { prefab := some "ghost" } [], .ok (.id "ghost_0")⟩,
    ⟨.query "ghost_0" [] (), .ok (.id "Callback_0")⟩,
    ⟨.create { update := [("position/0", Json.inexact)] } [], .ok (.id "Object_1")⟩,
    ⟨.query "Object_1" [("x", slot)] (), .ok (.id "Callback_1")⟩,
    ⟨.animate "Object_1" [{
        path := slot, target := .ofSmall 1 (by decide), duration := 0, callbackId := some "Callback_0" }],
      .ok .unit⟩,
    ⟨.flush, .ok .unit⟩]

def crossedStart : Session Unit :=
  (start { startImmediate := true } { announceOnAttach := false } {}).ship

def crossedAsked : Session Unit := crossedStart.asks (crossedExchange.map (·.request))

def crossedApplied : Session Unit := (crossedAsked.takeOps (sentFor crossedExchange) []).ship

def crossedTicked : Session Unit := (crossedApplied.act (.tick 1)).ship

def crossedAnswers : List Operation :=
  [Operation.created "Object_1", Operation.callback "Callback_1" (.record [("x", Json.inexact.reread)])]

def crossedEnds : List Operation := [Operation.callback "Callback_0" (.ofSmall 1 (by decide))]

def crossedFirst : Session Unit :=
  hearAll (fun _ _ _ => .done) 1 { crossedTicked with down := [Batch.encode crossedEnds] }
    (crossedAnswers.map Operation.wire)

def crossedLast : Session Unit :=
  hearAll (fun _ _ _ => .done) 1 { crossedFirst.ship with down := [] } (crossedEnds.map Operation.wire)

-- A session in which a tween answers under the name of a query that the host has refused.
def crossed : Session Unit := crossedLast.ship

-- Each time what the two ends make of it: the requests, with their replies and their batch; the batches of
-- the host; and what the caller does with those, with the answers to each of the two queries.
theorem crossed_run :
    (crossedStart.caller.replies (crossedExchange.map (·.request)) = crossedExchange.map (·.reply) ∧
      (crossedExchange.filterMap Asked.sent).all (fun op => op.data.all (·.depth ≤ 125)) = true ∧
      crossedAsked.up.length = 1 ∧ crossedAsked.caller.outbox.pending = [] ∧
      sentFor crossedExchange ≠ []) ∧
    ((crossedAsked.takeOps (sentFor crossedExchange) []).host.outbox.texts =
        crossedAnswers.map Operation.text ∧
      (crossedAsked.takeOps (sentFor crossedExchange) []).host.outbox.IsSingle ∧
      (crossedApplied.act (.tick 1)).host.outbox.texts = crossedEnds.map Operation.text ∧
      (crossedApplied.act (.tick 1)).host.outbox.IsSingle ∧
      (crossedAnswers ++ crossedEnds).all (fun op => op.data.all (·.depth ≤ 125)) = true) ∧
    crossedFirst.caller.outbox.texts = [] ∧ crossedLast.caller.outbox.texts = [] ∧
      crossed.caller.outbox.pending = [] ∧ crossed.host.outbox.pending = [] ∧ crossed.up = [] ∧
      (crossed.asked.drop crossedExchange.length).isEmpty = true ∧
      crossed.runsFor "Callback_0" ≠ [] ∧ (crossed.runsFor "Callback_0").all (fun run =>
        match run.2 with | .answer (.obj _) => false | _ => true) = true ∧
      crossed.runsFor "Callback_1" ≠ [] ∧ (crossed.runsFor "Callback_1").all (fun run =>
        match run.2 with | .answer data => data.reread.render ≠ data.render | _ => true) = true := by
  decide +kernel

theorem crossedAsked_spec : crossedAsked.Reachable ∧ crossedAsked.asked = crossedExchange := by
  obtain ⟨hreplies, hall, -⟩ := crossed_run.1
  have hstart : crossedStart.Reachable := .start _ _ _
  refine hstart.asks ?_ hreplies fun a ha op hop => fits_of_all hall op ?_
  · simp [crossedExchange, Request.IsPlain]
  · exact List.mem_filterMap.2 ⟨a, ha, hop⟩

theorem crossedAnswers_fits : ∀ op ∈ crossedAnswers, op.Fits := fun op hop =>
  fits_of_all crossed_run.2.1.2.2.2.2 op (List.mem_append_left _ hop)

theorem crossedEnds_fits : ∀ op ∈ crossedEnds, op.Fits := fun op hop =>
  fits_of_all crossed_run.2.1.2.2.2.2 op (List.mem_append_right _ hop)

theorem crossedApplied_reachable : crossedApplied.Reachable := by
  obtain ⟨hasked, hexchange⟩ := crossedAsked_spec
  obtain ⟨-, -, hlength, hpending, hne⟩ := crossed_run.1
  obtain ⟨raw, hraw⟩ := List.length_eq_one_iff.1 hlength
  have hops := opsOf_up hasked hraw hpending
  rw [hexchange] at hops
  have hnone : applied crossedAsked.deeds = [] := rfl
  rw [hnone] at hops
  exact hasked.takeOps hraw hops hne crossed_run.2.1.1 crossedAnswers_fits

theorem crossedTicked_reachable : crossedTicked.Reachable := by
  have hown : (Deed.tick 1).IsOwn := trivial
  exact crossedApplied_reachable.act hown crossed_run.2.1.2.2.1 crossedEnds_fits

theorem crossedTicked_down :
    crossedTicked.down = [Batch.encode crossedAnswers, Batch.encode crossedEnds] := by
  obtain ⟨hanswers, hfirst, hends, hsecond, -⟩ := crossed_run.2.1
  have hdown : crossedApplied.down = [Batch.encode crossedAnswers] := ship_down hfirst hanswers
  refine (ship_down hsecond hends).trans ?_
  change crossedApplied.down ++ _ = _
  rw [hdown]
  rfl

theorem crossedFirst_reachable : crossedFirst.ship.Reachable :=
  crossedTicked_reachable.hearOps crossedTicked_down (opsOf_encode crossedAnswers_fits)
    (fun _ _ _ => trivial) crossed_run.2.2.1

theorem crossedFirst_down : crossedFirst.ship.down = [Batch.encode crossedEnds] :=
  hearOps_down crossedTicked_reachable _ _ _ _

theorem crossed_reachable : crossed.Reachable :=
  crossedFirst_reachable.hearOps crossedFirst_down (opsOf_encode crossedEnds_fits)
    (fun _ _ _ => trivial) crossed_run.2.2.2.1

theorem crossed_quiet : crossed.Quiet := by
  obtain ⟨-, -, hcaller, hhost, hup, -⟩ := crossed_run.2.2
  exact ⟨hcaller, hhost, hup, hearOps_down crossedFirst_reachable _ _ _ _⟩

theorem crossed_asked : crossed.asked = crossedExchange := by
  obtain ⟨first, hfirst⟩ := hearAll_asked (fun _ _ _ => .done) 1
    { crossedTicked with down := [Batch.encode crossedEnds] } (crossedAnswers.map Operation.wire)
  obtain ⟨last, hlast⟩ := hearAll_asked (fun _ _ _ => .done) 1
    { crossedFirst.ship with down := [] } (crossedEnds.map Operation.wire)
  change crossedFirst.asked = crossedAsked.asked ++ first at hfirst
  change crossed.asked = crossedFirst.asked ++ last at hlast
  obtain ⟨-, -, -, -, -, hno, -⟩ := crossed_run.2.2
  rw [hlast, hfirst, crossedAsked_spec.2] at hno ⊢
  rw [List.append_assoc, List.drop_left, List.isEmpty_iff, List.append_eq_nil_iff] at hno
  rw [hno.1, hno.2, List.append_nil, List.append_nil]

-- The query of an object that the host has refused to create.
def refusedQuery : Question Unit where
  id := "ghost_0"
  paths := []
  handler := ()
  callbackId := "Callback_0"

def placeQuery : Question Unit where
  id := "Object_1"
  paths := [("x", slot)]
  handler := ()
  callbackId := "Callback_1"

theorem placeQuery_parsed : Path.AllParsed placeQuery.paths :=
  ⟨by decide, List.forall_mem_singleton.2 rfl⟩

theorem placeQuery_asked : crossed.asked = crossedExchange.take 3 ++
    ⟨.query "Object_1" [("x", slot)] (), .ok (.id "Callback_1")⟩ :: crossedExchange.drop 4 :=
  crossed_asked

theorem placeQuery_not_cleared :
    ∀ b ∈ crossedExchange.drop 4, b.request ≠ .clear placeQuery.callbackId := by
  simp [crossedExchange]

theorem placeQuery_not_named : ∀ b ∈ crossed.asked, placeQuery.callbackId ∉ b.names := by
  rw [crossed_asked]
  simp [crossedExchange, Asked.names, placeQuery]

end Crossed

-- With nothing on its way, every accepted query that was not cleared, and whose name no animation
-- bears, has been answered once, from the state that all earlier requests have led to, or still
-- waits because the host did not hold the object. The results arrive as they are read from their
-- text, which are the results themselves where they are exact.
theorem queries_answered_once (hs : s.Reachable) (hquiet : s.Quiet) {before after : List (Asked H)}
    {a : Asked H} (hasked : s.asked = before ++ a :: after) {q : Question H}
    (hq : a.question? = some q) (hparsed : Path.AllParsed q.paths)
    (hclear : ∀ b ∈ after, b.request ≠ .clear q.callbackId)
    (hnames : ∀ b ∈ s.asked, q.callbackId ∉ b.names) :
    s.Answered (fun results data => data = results.reread ∧
      (results.Sorted → results.Exact → data = results)) q before := by
  refine (answered hs hquiet hasked hq hparsed hclear hnames).mono fun results data hdata => ⟨hdata, ?_⟩
  intro hsorted hexact
  rw [hdata, Json.reread_eq_self results hsorted hexact]

theorem queries_answered_once_crossed : crossed.Answered (fun results data => data = results.reread ∧
    (results.Sorted → results.Exact → data = results)) placeQuery (crossedExchange.take 3) :=
  queries_answered_once crossed_reachable crossed_quiet placeQuery_asked rfl placeQuery_parsed
    placeQuery_not_cleared placeQuery_not_named

-- Results that are not exact change on their way, and a tween can answer for a query that the
-- host has refused.
theorem queries_answered_otherwise : ∃ s : Session Unit, s.Reachable ∧ s.Quiet ∧
    (∃ before a after q, s.asked = before ++ a :: after ∧ a.question? = some q ∧
      Path.AllParsed q.paths ∧ (∀ b ∈ after, b.request ≠ .clear q.callbackId) ∧
      (∀ b ∈ s.asked, q.callbackId ∉ b.names) ∧
      ¬s.Answered (fun results data => data = results) q before) ∧
    ∃ before a after q, s.asked = before ++ a :: after ∧ a.question? = some q ∧
      Path.AllParsed q.paths ∧ (∀ b ∈ after, b.request ≠ .clear q.callbackId) ∧
      ¬s.Answered (fun results data => data = results.reread) q before := by
  obtain ⟨-, -, -, -, -, -, hrefused, htween, hplace, hinexact⟩ := crossed_run.2.2
  refine ⟨crossed, crossed_reachable, crossed_quiet, ⟨crossedExchange.take 3, _, crossedExchange.drop 4,
    placeQuery, placeQuery_asked, rfl, placeQuery_parsed, placeQuery_not_cleared,
    placeQuery_not_named, ?_⟩, ⟨crossedExchange.take 1, _, crossedExchange.drop 2, refusedQuery,
    crossed_asked, rfl, ⟨by decide, List.forall_mem_nil _⟩, ?_, ?_⟩⟩
  · have hanswered := answered crossed_reachable crossed_quiet placeQuery_asked rfl placeQuery_parsed
      placeQuery_not_cleared placeQuery_not_named
    refine not_answered_eq hanswered hplace fun run hrun data hdata hsame => ?_
    have hrender := List.all_eq_true.1 hinexact run hrun
    rw [hdata] at hrender
    exact of_decide_eq_true hrender (congrArg Json.render hsame)
  · simp [crossedExchange]
  · rintro ⟨early, later, -, -, hanswer⟩
    split at hanswer
    · obtain ⟨data, hruns, -, hdata⟩ := hanswer
      change crossed.runsFor "Callback_0" = _ at hruns
      rw [hruns, hdata] at htween
      cases htween
    · exact hrefused hanswer.1

end Session

end SceneLink
