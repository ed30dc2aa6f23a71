import SceneLink.Proofs.Session.Basic

/-!
The flow of single operations that is under a session. Batches and outboxes are gone: an
operation is on its way from the request or the deed that sent it until the other end hears it.
Every reachable session is a reachable flow, so an invariant is shown for the moves of a flow.
-/

namespace SceneLink

structure Flow (H : Type) where
  caller : Caller H
  host : Host
  -- On its way to the host, and to the caller, in order.
  up : List Operation := []
  down : List Operation := []
  origin : Host
  asked : List (Asked H) := []
  -- The continuations that ran, each with the identifier that it was asked for by.
  ran : List (Option String × H × Occasion) := []
  deeds : List Deed := []

namespace Flow

variable {H : Type}

inductive Move : Flow H → Flow H → Prop
  | ask (f : Flow H) (request : Request H) (hplain : request.IsPlain) :
      Move f { f with
        caller := (f.caller.respond request).after
        up := f.up ++ (f.caller.respond request).sent.toList.map Operation.wire
        asked := f.asked ++ [⟨request, (f.caller.respond request).reply⟩] }
  | apply (f : Flow H) (op : Operation) (rest ops : List Operation) (hup : f.up = op :: rest)
      (happlied : Host.Applied f.host op (f.host.perform (.apply op)) ops) :
      Move f { f with
        host := f.host.perform (.apply op)
        up := rest
        down := f.down ++ ops.map Operation.wire
        deeds := f.deeds ++ [.apply op] }
  | act (f : Flow H) (deed : Deed) (ops : List Operation) (hown : deed.IsOwn)
      (hdone : Host.Done f.host deed (f.host.perform deed) ops) :
      Move f { f with
        host := f.host.perform deed
        down := f.down ++ ops.map Operation.wire
        deeds := f.deeds ++ [deed] }
  | hear (f : Flow H) (op : Operation) (rest : List Operation) (hdown : f.down = op :: rest)
      (hevent : op.event ≠ .destroyed) :
      Move f { f with
        caller := f.caller.onset op
        down := rest
        ran := f.ran ++ (f.caller.answered op).map (op.id, ·) }
  -- The end of an object is heard once the handler is done that runs for it.
  | close (f : Flow H) (op : Operation) (rest : List Operation) (hdown : f.down = op :: rest)
      (hevent : op.event = .destroyed) :
      Move f { f with caller := f.caller.close op, down := rest }
  | ship (f : Flow H) :
      Move f { f with
        caller := f.caller.collect.2
        host := f.host.perform .collect
        deeds := f.deeds ++ [.collect] }

inductive Reachable : Flow H → Prop
  | start (settings : CallerSettings) (host : Host) (down : List Operation)
      (hregistry : host.world.registry.entries = []) (hanimator : host.animator = [])
      (hdown : ∀ op ∈ down, op.event = .started) :
      Reachable { caller := Caller.start settings {}, host, down, origin := host }
  | move {f g : Flow H} (hf : Reachable f) (hmove : Move f g) : Reachable g

section Moves

variable {f : Flow H}

theorem host_eq (hf : f.Reachable) : f.host = f.origin.after f.deeds := by
  induction hf with
  | start => rfl
  | move hf hmove ih =>
      cases hmove with
      | apply =>
          rw [Host.after_append, ← ih]
          rfl
      | act =>
          rw [Host.after_append, ← ih]
          rfl
      | ship =>
          rw [Host.after_append, ← ih]
          rfl
      | _ => exact ih

theorem reachable_asks (hf : f.Reachable) {asked : List (Asked H)} {d : Caller H}
    (hasks : Caller.Asks f.caller asked d) :
    ∃ ops : List Operation, d.outbox.texts = f.caller.outbox.texts ++ ops.map Operation.text ∧
      Reachable { f with
        caller := d, up := f.up ++ ops.map Operation.wire, asked := f.asked ++ asked } := by
  generalize hc : f.caller = c at hasks
  induction hasks generalizing f with
  | nil c =>
      subst hc
      refine ⟨[], (List.append_nil _).symm, ?_⟩
      rw [List.map_nil, List.append_nil, List.append_nil]
      exact hf
  | @cons c d request asked hplain hasks ih =>
      subst hc
      obtain ⟨ops, htexts, hreach⟩ := ih (hf.move (.ask f request hplain)) rfl
      refine ⟨(f.caller.respond request).sent.toList ++ ops, ?_, ?_⟩
      · rw [htexts, Caller.texts_respond, List.map_append, List.append_assoc]
      · rw [List.map_append, ← List.append_assoc, List.append_cons]
        exact hreach

theorem reachable_applies (hf : f.Reachable) (hl : f.host.outbox.Lossless) {ops rest : List Operation}
    (hup : f.up = ops ++ rest) :
    ∃ sent : List Operation,
      (f.host.after (ops.map .apply)).outbox.texts =
        f.host.outbox.texts ++ sent.map Operation.text ∧
      (f.host.after (ops.map .apply)).outbox.Lossless ∧
      Reachable { f with
        host := f.host.after (ops.map .apply)
        up := rest
        down := f.down ++ sent.map Operation.wire
        deeds := f.deeds ++ ops.map .apply } := by
  induction ops generalizing f with
  | nil =>
      refine ⟨[], (List.append_nil _).symm, hl, ?_⟩
      subst hup
      rw [List.map_nil, List.map_nil, List.append_nil, List.append_nil]
      exact hf
  | cons op ops ih =>
      obtain ⟨first, happlied⟩ := f.host.apply_spec hl op
      rw [← Host.perform_apply] at happlied
      have hnext : (f.host.perform (.apply op)).outbox.Lossless := by
        rw [happlied.outbox]
        exact Outbox.lossless_posts hl first
      obtain ⟨sent, htexts, hlast, hreach⟩ :=
        ih (hf.move (.apply f op (ops ++ rest) first hup happlied)) hnext rfl
      refine ⟨first ++ sent, ?_, hlast, ?_⟩
      · refine htexts.trans ?_
        dsimp only
        rw [happlied.outbox, Outbox.texts_posts, List.map_append, List.append_assoc]
      · rw [List.map_append, ← List.append_assoc, List.map_cons, List.append_cons]
        exact hreach

theorem reachable_act (hf : f.Reachable) (hl : f.host.outbox.Lossless) {deed : Deed}
    (hown : deed.IsOwn) :
    ∃ sent : List Operation,
      (f.host.perform deed).outbox.texts = f.host.outbox.texts ++ sent.map Operation.text ∧
      (f.host.perform deed).outbox.Lossless ∧
      Reachable { f with
        host := f.host.perform deed
        down := f.down ++ sent.map Operation.wire
        deeds := f.deeds ++ [deed] } := by
  obtain ⟨sent, hdone⟩ := Host.own_spec hl hown
  exact ⟨sent, hdone.texts, hdone.lossless, hf.move (.act f deed sent hown hdone)⟩

def ranBy (op : Operation) (output : List (Happening H (Asked H))) :
    List (Option String × H × Occasion) :=
  if op.event = .callback then (Caller.runs output).map (op.id, ·) else []

theorem reachable_hear (hf : f.Reachable) (hl : f.caller.outbox.Lossless)
    {behave : H → Occasion → Reaction H Unit}
    (hplain : ∀ handler occasion, (behave handler occasion).IsPlain) (depth : Nat)
    {op : Operation} {rest : List Operation} (hdown : f.down = op :: rest) :
    let out := Caller.distribute (Caller.notingRunner behave depth) op f.caller
    ∃ ops : List Operation,
      out.value.2.outbox.texts = f.caller.outbox.texts ++ ops.map Operation.text ∧
      out.value.2.outbox.Lossless ∧
      Reachable { f with
        caller := out.value.2
        up := f.up ++ ops.map Operation.wire
        down := rest
        asked := f.asked ++ Caller.notes out.output
        ran := f.ran ++ ranBy op out.output } := by
  obtain ⟨⟨d, hasks, hd⟩, hruns⟩ := Caller.distribute_spec hplain depth op hl
  generalize Caller.distribute (Caller.notingRunner behave depth) op f.caller = out
    at hasks hd hruns
  have hlast : d.outbox.Lossless := hasks.lossless (Caller.lossless_onset hl op)
  have hran : ranBy op out.output = (f.caller.answered op).map (op.id, ·) := by
    unfold ranBy
    split
    · next hevent => rw [hruns hevent]
    · next hevent => rw [Caller.answered_of_ne hevent, List.map_nil]
  dsimp only
  rw [hd, Caller.close_outbox, hran]
  by_cases hevent : op.event = .destroyed
  · rw [Caller.onset_of_destroyed hevent] at hasks
    obtain ⟨ops, htexts, hreach⟩ := reachable_asks hf hasks
    refine ⟨ops, htexts, hlast, ?_⟩
    rw [Caller.answered_of_ne (by rw [hevent]; decide), List.map_nil, List.append_nil]
    exact hreach.move (.close _ op rest hdown hevent)
  · have hheard := hf.move (.hear f op rest hdown hevent)
    obtain ⟨ops, htexts, hreach⟩ := reachable_asks hheard hasks
    rw [Caller.close_of_ne hevent]
    exact ⟨ops, htexts.trans (by rw [Caller.texts_onset]), hlast, hreach⟩

end Moves

end Flow

namespace Session

variable {H : Type}

def rising (s : Session H) : List Operation :=
  s.up.flatMap opsOf ++ s.caller.outbox.texts.filterMap Operation.ofText?

def falling (s : Session H) : List Operation :=
  s.down.flatMap opsOf ++ s.host.outbox.texts.filterMap Operation.ofText?

def ran (s : Session H) : List (Option String × H × Occasion) :=
  s.heard.flatMap fun hearing => Flow.ranBy hearing.op hearing.output

def flow (s : Session H) : Flow H where
  caller := s.caller
  host := s.host
  up := s.rising
  down := s.falling
  origin := s.origin
  asked := s.asked
  ran := s.ran
  deeds := s.deeds

structure Lossless (s : Session H) : Prop where
  caller : s.caller.outbox.Lossless
  host : s.host.outbox.Lossless

section Texts

variable {texts : List String}

theorem filterMap_ofText? (hfits : ∀ text ∈ texts, ∃ op : Operation, op.Fits ∧ op.text = text)
    {ops : List Operation} (hops : ∀ op ∈ ops, op.text ∈ texts) :
    (ops.map Operation.text).filterMap Operation.ofText? = ops.map Operation.wire := by
  induction ops with
  | nil => rfl
  | cons op ops ih =>
      obtain ⟨fitting, hfit, htext⟩ := hfits op.text (hops op List.mem_cons_self)
      have hread : Operation.ofText? op.text = some op.wire := by
        rw [← htext, Operation.ofText?_text hfit, Operation.wire_eq_of_text_eq htext]
      rw [List.map_cons, List.filterMap_cons_some hread, ih fun o ho => hops o (List.mem_cons_of_mem _ ho)]
      rfl

theorem reads_append {more : List Operation} {all : List String}
    (hfits : ∀ text ∈ all, ∃ op : Operation, op.Fits ∧ op.text = text)
    (hall : all = texts ++ more.map Operation.text) :
    all.filterMap Operation.ofText? =
      texts.filterMap Operation.ofText? ++ more.map Operation.wire := by
  have hmore : ∀ op ∈ more, op.text ∈ all := fun op hop => by
    rw [hall]
    exact List.mem_append_right _ (List.mem_map_of_mem hop)
  rw [← filterMap_ofText? hfits hmore, hall, List.filterMap_append]

theorem opsOf_join (hfits : ∀ text ∈ texts, ∃ op : Operation, op.Fits ∧ op.text = text) :
    opsOf (Batch.join texts) = texts.filterMap Operation.ofText? := by
  unfold opsOf
  rw [Batch.decode_join hfits]

theorem reads_collect {o : Outbox} (hl : o.Lossless)
    (hfits : ∀ text ∈ o.texts, ∃ op : Operation, op.Fits ∧ op.text = text) :
    o.collect.1.flatMap opsOf ++ o.collect.2.texts.filterMap Operation.ofText? =
      o.texts.filterMap Operation.ofText? := by
  have hhanded : ∀ handed : List Handover, (∀ other ∈ handed, other ∈ o.handed) →
      (handed.map fun b => Batch.join b.operations).flatMap opsOf =
        (handed.flatMap (·.operations)).filterMap Operation.ofText? := by
    intro handed hmem
    induction handed with
    | nil => rfl
    | cons b handed ih =>
        have hb : opsOf (Batch.join b.operations) = b.operations.filterMap Operation.ofText? := by
          apply opsOf_join
          intro text htext
          apply hfits
          exact List.mem_append_left _ (List.mem_flatMap.2 ⟨b, hmem b List.mem_cons_self, htext⟩)
        rw [List.map_cons, List.flatMap_cons, List.flatMap_cons, List.filterMap_append, hb,
          ih fun b hb => hmem b (List.mem_cons_of_mem _ hb)]
  unfold Outbox.collect
  rw [Outbox.delivered_eq hl]
  dsimp only
  rw [hhanded o.handed fun _ hb => hb, ← List.filterMap_append]
  rfl

theorem lossless_collect {o : Outbox} (hl : o.Lossless) : o.collect.2.Lossless :=
  ⟨hl.transport, fun _ hb => absurd hb List.not_mem_nil⟩

end Texts

section Steps

variable {s t : Session H}

theorem hearAll_keeps (behave : Nat → H → Occasion → Reaction H Unit) (depth : Nat)
    (s : Session H) (ops : List Operation) :
    let t := hearAll behave depth s ops
    t.host = s.host ∧ t.up = s.up ∧ t.down = s.down ∧ t.origin = s.origin ∧ t.deeds = s.deeds := by
  induction ops generalizing s with
  | nil => exact ⟨rfl, rfl, rfl, rfl, rfl⟩
  | cons op ops ih => exact ih _

theorem reachable_hearAll {f : Flow H} (hf : f.Reachable) (hcaller : f.caller = s.caller)
    (hasked : f.asked = s.asked) (hran : f.ran = s.ran) (hl : s.caller.outbox.Lossless)
    {behave : Nat → H → Occasion → Reaction H Unit}
    (hplain : ∀ n handler occasion, (behave n handler occasion).IsPlain) (depth : Nat)
    {ops rest : List Operation} (hdown : f.down = ops ++ rest) :
    let t := hearAll behave depth s ops
    ∃ sent : List Operation,
      t.caller.outbox.texts = s.caller.outbox.texts ++ sent.map Operation.text ∧
      t.caller.outbox.Lossless ∧
      Flow.Reachable { f with
        caller := t.caller
        up := f.up ++ sent.map Operation.wire
        down := rest
        asked := t.asked
        ran := t.ran } := by
  induction ops generalizing f s with
  | nil =>
      refine ⟨[], (List.append_nil _).symm, hl, ?_⟩
      subst hdown
      dsimp only [hearAll, List.foldl_nil]
      rw [← hcaller, ← hasked, ← hran, List.map_nil, List.append_nil]
      exact hf
  | cons op ops ih =>
      obtain ⟨first, htexts, hnext, hreach⟩ := Flow.reachable_hear hf (hcaller ▸ hl)
        (hplain s.heard.length) depth hdown
      rw [hcaller] at htexts hnext hreach
      let heard := s.hear (Caller.notingRunner (behave s.heard.length) depth) op
      have hheard : heard.ran = s.ran ++ Flow.ranBy op (Caller.distribute
          (Caller.notingRunner (behave s.heard.length) depth) op s.caller).output := by
        change (s.heard ++ [_]).flatMap _ = _
        rw [List.flatMap_append, List.flatMap_singleton]
        rfl
      obtain ⟨sent, hmore, hlast, hall⟩ := ih (s := heard) hreach rfl (by rw [hasked]; rfl)
        (by rw [hheard, hran]) hnext rfl
      refine ⟨first ++ sent, ?_, hlast, ?_⟩
      · refine hmore.trans ?_
        rw [List.map_append, ← List.append_assoc]
        exact congrArg (· ++ _) htexts
      · rw [List.map_append, ← List.append_assoc]
        exact hall

theorem Fits.caller (hfits : s.Fits) :
    ∀ text ∈ s.caller.outbox.texts, ∃ op : Operation, op.Fits ∧ op.text = text :=
  fun text htext => hfits text (List.mem_append_left _ htext)

theorem Fits.host (hfits : s.Fits) :
    ∀ text ∈ s.host.outbox.texts, ∃ op : Operation, op.Fits ∧ op.text = text :=
  fun text htext => hfits text (List.mem_append_right _ htext)

theorem rising_append {sent : List Operation} (hfits : t.Fits) (hup : t.up = s.up)
    (htexts : t.caller.outbox.texts = s.caller.outbox.texts ++ sent.map Operation.text) :
    t.rising = s.rising ++ sent.map Operation.wire := by
  unfold rising
  rw [hup, reads_append hfits.caller htexts, List.append_assoc]

theorem falling_append {sent : List Operation} (hfits : t.Fits) (hdown : t.down = s.down)
    (htexts : t.host.outbox.texts = s.host.outbox.texts ++ sent.map Operation.text) :
    t.falling = s.falling ++ sent.map Operation.wire := by
  unfold falling
  rw [hdown, reads_append hfits.host htexts, List.append_assoc]

theorem ask_eq (hl : s.caller.outbox.Lossless) {request : Request H} (hplain : request.IsPlain) :
    s.ask request = { s with
      caller := (s.caller.respond request).after
      asked := s.asked ++ [⟨request, (s.caller.respond request).reply⟩] } := by
  unfold ask
  dsimp only
  rw [Caller.perform_value hl (N := Unit) (fun _ _ => pure ()) hplain]
  rfl

theorem flow_takeUp {raw : String} {rest : List String} (hup : s.up = raw :: rest)
    (hfits : (s.takeUp raw rest).Fits) (hf : s.flow.Reachable) (hl : s.Lossless) :
    (s.takeUp raw rest).flow.Reachable ∧ (s.takeUp raw rest).Lossless := by
  have hrising : s.rising = opsOf raw ++ (rest.flatMap opsOf ++
      s.caller.outbox.texts.filterMap Operation.ofText?) := by
    unfold rising
    rw [hup, List.flatMap_cons, List.append_assoc]
  unfold takeUp at hfits ⊢
  rw [receive_value] at hfits ⊢
  cases hdecode : (Batch.decode raw).value with
  | error e =>
      obtain ⟨hops, hdeeds⟩ := malformed hdecode
      rw [hops, List.nil_append] at hrising
      rw [hdeeds, List.append_nil]
      unfold flow at hf
      rw [hrising] at hf
      exact ⟨hf, hl.caller, hl.host⟩
  | ok ops =>
      rw [opsOf_ok hdecode] at hrising
      have hafter : s.host.after (ops.map Deed.apply ++ [.flush]) =
          (s.host.after (ops.map .apply)).perform .flush := Host.after_append ..
      rw [deedsOf_ok hdecode, ← List.append_assoc, hafter] at hfits ⊢
      obtain ⟨sent, htexts, hnext, hreach⟩ := Flow.reachable_applies hf hl.host hrising
      have hown : Deed.flush.IsOwn := trivial
      obtain ⟨more, hmore, hlast, hflushed⟩ := Flow.reachable_act hreach hnext hown
      refine ⟨?_, hl.caller, hlast⟩
      have hall : ((s.host.after (ops.map .apply)).perform .flush).outbox.texts =
          s.host.outbox.texts ++ (sent ++ more).map Operation.text := by
        rw [List.map_append, ← List.append_assoc]
        exact hmore.trans (congrArg (· ++ _) htexts)
      have hdown := falling_append hfits rfl (s := s) hall
      unfold flow
      rw [hdown, List.map_append, ← List.append_assoc]
      exact hflushed

theorem flow_takeDown {raw : String} {rest : List String} (hdown : s.down = raw :: rest)
    {behave : Nat → H → Occasion → Reaction H Unit} {depth : Nat}
    (hplain : ∀ n handler occasion, (behave n handler occasion).IsPlain)
    (hfits : (takeDown behave depth s raw rest).Fits) (hf : s.flow.Reachable) (hl : s.Lossless) :
    (takeDown behave depth s raw rest).flow.Reachable ∧ (takeDown behave depth s raw rest).Lossless := by
  have hfalling : s.falling = opsOf raw ++ (rest.flatMap opsOf ++
      s.host.outbox.texts.filterMap Operation.ofText?) := by
    unfold falling
    rw [hdown, List.flatMap_cons, List.append_assoc]
  unfold takeDown at hfits ⊢
  obtain ⟨hhost, hup, hrest, horigin, hdeeds⟩ :=
    hearAll_keeps behave depth { s with down := rest } (opsOf raw)
  obtain ⟨sent, htexts, hlast, hreach⟩ := reachable_hearAll hf (s := { s with down := rest })
    rfl rfl rfl hl.caller hplain depth hfalling
  generalize hearAll behave depth { s with down := rest } (opsOf raw) = t
    at hfits hhost hup hrest horigin hdeeds htexts hlast hreach
  refine ⟨?_, hlast, hhost ▸ hl.host⟩
  have hrising := rising_append hfits hup (s := { s with down := rest }) htexts
  unfold flow at hreach ⊢
  rw [hrising, falling, hhost, hrest, horigin, hdeeds]
  exact hreach

theorem flow_step (hstep : Step s t) (hfits : t.Fits) (hf : s.flow.Reachable) (hl : s.Lossless) :
    t.flow.Reachable ∧ t.Lossless := by
  cases hstep with
  | ask request hplain =>
      rw [ask_eq hl.caller hplain] at hfits ⊢
      refine ⟨?_, Caller.lossless_respond hl.caller request, hl.host⟩
      have hmove := hf.move (.ask s.flow request hplain)
      have hup := rising_append hfits rfl (s := s) (Caller.texts_respond s.caller request)
      unfold flow at hmove ⊢
      rw [hup]
      exact hmove
  | act deed hown =>
      obtain ⟨sent, htexts, hlast, hreach⟩ := Flow.reachable_act hf hl.host hown
      refine ⟨?_, hl.caller, hlast⟩
      have hdown := falling_append hfits rfl (s := s) htexts
      unfold flow at hreach ⊢
      rw [hdown]
      exact hreach
  | takeUp raw rest hup => exact flow_takeUp hup hfits hf hl
  | takeDown raw rest hdown behave depth hplain => exact flow_takeDown hdown hplain hfits hf hl

theorem rising_ship (hfits : s.Fits) (hl : s.Lossless) : s.ship.rising = s.rising := by
  change (s.up ++ s.caller.outbox.collect.1).flatMap opsOf ++
    s.caller.outbox.collect.2.texts.filterMap Operation.ofText? = _
  rw [List.flatMap_append, List.append_assoc, reads_collect hl.caller hfits.caller]
  rfl

theorem falling_ship (hfits : s.Fits) (hl : s.Lossless) : s.ship.falling = s.falling := by
  change (s.down ++ s.host.outbox.collect.1).flatMap opsOf ++
    s.host.outbox.collect.2.texts.filterMap Operation.ofText? = _
  rw [List.flatMap_append, List.append_assoc, reads_collect hl.host hfits.host]
  rfl

theorem flow_ship (hfits : s.Fits) (hf : s.flow.Reachable) (hl : s.Lossless) :
    s.ship.flow.Reachable ∧ s.ship.Lossless := by
  refine ⟨?_, lossless_collect hl.caller, lossless_collect hl.host⟩
  have hmove := hf.move (.ship s.flow)
  unfold flow at hmove ⊢
  rw [rising_ship hfits hl, falling_ship hfits hl]
  exact hmove

theorem start_host (settings : HostSettings) (catalog : Catalog) :
    let host := (Host.start settings catalog {}).value
    host.world.registry.entries = [] ∧ host.animator = [] ∧ host.outbox.Lossless ∧
      (host.outbox.texts = [] ∨ host.outbox.texts = [Operation.started.text]) := by
  let h : Host :=
    { settings, catalog, outbox := { started := true, logWire := settings.logWire } }
  have hl : h.outbox.Lossless := ⟨rfl, fun _ hb => absurd hb List.not_mem_nil⟩
  have hvalue : (Host.start settings catalog {}).value =
      if settings.announceOnAttach then (Host.announce h).value.2 else h := by
    unfold Host.start
    dsimp only
    cases settings.announceOnAttach <;> rfl
  dsimp only
  rw [hvalue]
  split
  · have hdone := Host.announce_done hl
    rw [Host.announce_value] at hdone ⊢
    exact ⟨rfl, rfl, hdone.lossless, .inr hdone.texts⟩
  · exact ⟨rfl, rfl, hl, .inl rfl⟩

theorem flow_start (caller : CallerSettings) (host : HostSettings) (catalog : Catalog) :
    let s : Session H := start caller host catalog
    s.flow.Reachable ∧ s.Lossless ∧ s.Fits := by
  obtain ⟨hregistry, hanimator, hl, htexts⟩ := start_host host catalog
  have hstarted : Operation.started.Fits := fun _ h => nomatch h
  refine ⟨.start caller _ _ hregistry hanimator fun op hop => ?_,
    ⟨⟨rfl, fun _ hb => absurd hb List.not_mem_nil⟩, hl⟩, fun text htext => ?_⟩
  · change op ∈ (Host.start host catalog {}).value.outbox.texts.filterMap Operation.ofText? at hop
    rcases htexts with htexts | htexts
    · rw [htexts] at hop
      cases hop
    · rw [htexts, List.filterMap_cons_some (Operation.ofText?_text hstarted)] at hop
      rw [List.mem_singleton.1 hop]
      rfl
  · change text ∈ (Host.start host catalog {}).value.outbox.texts at htext
    rcases htexts with htexts | htexts
    · rw [htexts] at htext
      cases htext
    · rw [htexts] at htext
      exact ⟨_, hstarted, (List.mem_singleton.1 htext).symm⟩

theorem Reachable.flow (hs : s.Reachable) : s.flow.Reachable ∧ s.Lossless := by
  induction hs with
  | start caller host catalog =>
      obtain ⟨hf, hl, hfits⟩ := flow_start (H := H) caller host catalog
      exact flow_ship hfits hf hl
  | step hs hstep hfits ih =>
      obtain ⟨hf, hl⟩ := flow_step hstep hfits ih.1 ih.2
      exact flow_ship hfits hf hl

theorem Reachable.fits (hs : s.Reachable) : s.Fits := by
  have hship : ∀ {t : Session H}, t.Fits → t.ship.Fits := by
    intro t hfits text htext
    rcases List.mem_append.1 htext with htext | htext
    · exact hfits text (List.mem_append_left _ (List.mem_append_right _ htext))
    · exact hfits text (List.mem_append_right _ (List.mem_append_right _ htext))
  cases hs with
  | start caller host catalog => exact hship (flow_start caller host catalog).2.2
  | step hs hstep hfits => exact hship hfits

theorem Reachable.handed (hs : s.Reachable) :
    s.caller.outbox.handed = [] ∧ s.host.outbox.handed = [] := by
  cases hs <;> exact ⟨rfl, rfl⟩

theorem Reachable.ask (hs : s.Reachable) {request : Request H} (hplain : request.IsPlain)
    (hfits : ∀ op ∈ (s.caller.respond request).sent, op.Fits) : (s.ask request).ship.Reachable := by
  refine hs.step (.ask s request hplain) fun text htext => ?_
  rw [ask_eq hs.flow.2.caller hplain] at htext
  rcases List.mem_append.1 htext with htext | htext
  · rw [Caller.texts_respond] at htext
    rcases List.mem_append.1 htext with htext | htext
    · exact hs.fits.caller text htext
    · obtain ⟨op, hop, rfl⟩ := List.mem_map.1 htext
      exact ⟨op, hfits op (Option.mem_toList.1 hop), rfl⟩
  · exact hs.fits.host text htext

theorem Reachable.quiet_flow (hs : s.Reachable) (hquiet : s.Quiet) :
    s.rising = [] ∧ s.falling = [] := by
  obtain ⟨hcaller, hhost⟩ := hs.handed
  obtain ⟨hcallerPending, hhostPending, hup, hdown⟩ := hquiet
  unfold rising falling Outbox.texts
  rw [hcaller, hhost, hcallerPending, hhostPending, hup, hdown]
  exact ⟨rfl, rfl⟩

end Steps

section Runs

variable {s : Session H} {ops answers : List Operation} {raw : String} {rest : List String}

theorem fits_of_all (h : ops.all (fun op => op.data.all fun data => data.depth ≤ 125) = true) :
    ∀ op ∈ ops, op.Fits := by
  intro op hop data hdata
  have hall := List.all_eq_true.1 h op hop
  rw [Option.mem_def.1 hdata] at hall
  simpa using hall

theorem ask_up (hl : s.caller.outbox.Lossless) {request : Request H} (hplain : request.IsPlain)
    {op : Operation} (hsent : (s.caller.respond request).sent = some op)
    (houtbox : (s.caller.respond request).caller.outbox = s.caller.outbox)
    (hstarted : s.caller.outbox.started = false) (hpending : s.caller.outbox.pending = [])
    (hhanded : s.caller.outbox.handed = []) :
    (s.ask request).ship.up = s.up ++ [Batch.encode [op]] := by
  rw [ask_eq hl hplain]
  change s.up ++ (s.caller.respond request).after.outbox.collect.1 = _
  unfold Caller.Response.after
  rw [hsent]
  change s.up ++ ((s.caller.respond request).caller.outbox.posted op).collect.1 = _
  rw [houtbox, Outbox.collect_posted hl hstarted hpending hhanded]

theorem ship_down (hsingle : s.host.outbox.IsSingle)
    (htexts : s.host.outbox.texts = answers.map Operation.text) :
    s.ship.down = s.down ++ [Batch.encode answers] :=
  congrArg (s.down ++ ·) (Outbox.collect_single hsingle htexts)

def takeOps (s : Session H) (ops : List Operation) (rest : List String) : Session H :=
  { s with
    up := rest
    host := s.host.after (ops.map Deed.apply ++ [.flush])
    deeds := s.deeds ++ (ops.map Deed.apply ++ [.flush]) }

theorem takeUp_eq (hops : opsOf raw = ops) (hne : ops ≠ []) : s.takeUp raw rest = s.takeOps ops rest := by
  unfold takeUp takeOps
  rw [receive_value, deedsOf_eq (hops ▸ hne), hops]

theorem Reachable.takeOps (hs : s.Reachable) (hup : s.up = raw :: rest) (hops : opsOf raw = ops)
    (hne : ops ≠ []) (htexts : (s.takeOps ops rest).host.outbox.texts = answers.map Operation.text)
    (hfits : ∀ op ∈ answers, op.Fits) : (s.takeOps ops rest).ship.Reachable := by
  rw [← takeUp_eq hops hne] at htexts ⊢
  refine hs.step (.takeUp s raw rest hup) fun text htext => ?_
  rcases List.mem_append.1 htext with htext | htext
  · exact hs.fits.caller text htext
  · rw [htexts] at htext
    obtain ⟨op, hop, rfl⟩ := List.mem_map.1 htext
    exact ⟨op, hfits op hop, rfl⟩

theorem Reachable.act (hs : s.Reachable) {deed : Deed} (hown : deed.IsOwn)
    (htexts : (s.act deed).host.outbox.texts = answers.map Operation.text)
    (hfits : ∀ op ∈ answers, op.Fits) : (s.act deed).ship.Reachable := by
  refine hs.step (.act s deed hown) fun text htext => ?_
  rcases List.mem_append.1 htext with htext | htext
  · exact hs.fits.caller text htext
  · rw [htexts] at htext
    obtain ⟨op, hop, rfl⟩ := List.mem_map.1 htext
    exact ⟨op, hfits op hop, rfl⟩

theorem Reachable.hearOps (hs : s.Reachable) (hdown : s.down = raw :: rest) (hops : opsOf raw = ops)
    {behave : Nat → H → Occasion → Reaction H Unit} {depth : Nat}
    (hplain : ∀ n handler occasion, (behave n handler occasion).IsPlain)
    (htexts : (hearAll behave depth { s with down := rest } ops).caller.outbox.texts = []) :
    (hearAll behave depth { s with down := rest } ops).ship.Reachable := by
  subst hops
  refine hs.step (.takeDown s raw rest hdown behave depth hplain) fun text htext => ?_
  rcases List.mem_append.1 htext with htext | htext
  · change text ∈ (hearAll behave depth { s with down := rest } (opsOf raw)).caller.outbox.texts at htext
    rw [htexts] at htext
    cases htext
  · rw [(hearAll_keeps behave depth { s with down := rest } (opsOf raw)).1] at htext
    exact hs.fits.host text htext

theorem hearOps_down (hs : s.Reachable) (behave : Nat → H → Occasion → Reaction H Unit) (depth : Nat)
    (ops : List Operation) (rest : List String) :
    (hearAll behave depth { s with down := rest } ops).ship.down = rest := by
  obtain ⟨hhost, -, hdown, -, -⟩ := hearAll_keeps behave depth { s with down := rest } ops
  change (hearAll behave depth { s with down := rest } ops).down ++
    (hearAll behave depth { s with down := rest } ops).host.outbox.delivered = rest
  rw [hhost, hdown, Outbox.delivered, hs.handed.2]
  exact List.append_nil _

theorem hearAll_asked (behave : Nat → H → Occasion → Reaction H Unit) (depth : Nat) (s : Session H)
    (ops : List Operation) : ∃ more, (hearAll behave depth s ops).asked = s.asked ++ more := by
  induction ops generalizing s with
  | nil => exact ⟨[], (List.append_nil _).symm⟩
  | cons op ops ih =>
      let run := Caller.notingRunner (behave s.heard.length) depth
      obtain ⟨more, hmore⟩ := ih (s.hear run op)
      refine ⟨Caller.notes (Caller.distribute run op s.caller).output ++ more, hmore.trans ?_⟩
      exact List.append_assoc _ _ _

end Runs

end Session

end SceneLink
