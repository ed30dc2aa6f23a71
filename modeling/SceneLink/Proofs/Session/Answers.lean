import SceneLink.Proofs.Caller.Callbacks
import SceneLink.Proofs.Operation.Payload
import SceneLink.Proofs.Session.Flow

namespace SceneLink

-- An operation that makes the host answer under a name, at once or when a tween ends.
def Operation.Asks (op : Operation) (name : String) : Prop :=
  op.event = .query ∧ (∃ request, op.payload QueryRequest.ofJson? = .ok request ∧
    request.callbackId = some name) ∨ name ∈ Host.animationNames op

def Operation.answers (name : String) (op : Operation) : Bool :=
  op.event = .callback ∧ op.id = some name

def answersTo (name : String) (ops : List Operation) : List Operation :=
  ops.filter (Operation.answers name)

def Deed.operation? : Deed → Option Operation
  | .apply op => some op
  | _ => none

def applied (deeds : List Deed) : List Operation := deeds.filterMap Deed.operation?

def sentFor {H : Type} (asked : List (Asked H)) : List Operation :=
  (asked.filterMap Asked.sent).map Operation.wire

section Asking

variable {H : Type} {name : String}

theorem not_asks_of_ne {op : Operation} (hquery : op.event ≠ .query) (hanimate : op.event ≠ .animate) :
    ¬op.Asks name := by
  rintro (⟨hevent, -⟩ | hname)
  · exact hquery hevent
  · unfold Host.animationNames at hname
    split at hname
    · next hevent _ => exact hanimate hevent
    · cases hname

theorem asks_question {q : Question H} (h : q.operation.wire.Asks name) : q.callbackId = name := by
  rcases h with ⟨-, request, hpayload, hname⟩ | hname
  · have := Operation.callbackId_query hpayload
    rw [hname] at this
    exact (Option.some.inj this).symm
  · cases hname

theorem names_animate {id : String} {animations : List Animation} :
    ∀ name ∈ Host.animationNames (Operation.animate id animations).wire,
      name ∈ animations.filterMap (·.callbackId) := by
  intro name hname
  unfold Host.animationNames at hname
  split at hname
  · next read _ hpayload =>
    obtain ⟨b, hb, hid⟩ := List.mem_filterMap.1 hname
    have hmem : b.callbackId ∈ animations.map (·.callbackId) := by
      rw [← Operation.callbackId_animate hpayload]
      exact List.mem_map_of_mem hb
    obtain ⟨a, ha, heq⟩ := List.mem_map.1 hmem
    exact List.mem_filterMap.2 ⟨a, ha, heq.trans hid⟩
  · cases hname

theorem asks_sent {a : Asked H} {op : Operation} (hsent : a.sent = some op) (h : op.wire.Asks name) :
    (∃ q, a.question? = some q ∧ q.callbackId = name) ∨ name ∈ a.names := by
  rcases Asked.sent_cases hsent with ⟨q, hq, rfl⟩ | ⟨id, animations, rfl, hnames⟩ |
    ⟨hquery, hanimate, hsettled⟩
  · exact .inl ⟨q, hq, asks_question h⟩
  · rcases h with ⟨hevent, -⟩ | hname
    · cases hevent
    · rw [hnames]
      exact .inr (names_animate name hname)
  · rw [← Operation.wire_event hsettled] at hquery hanimate
    exact (not_asks_of_ne hquery hanimate h).elim

end Asking

section Answers

variable {h k : Host} {op : Operation} {ops : List Operation} {name other : String}

theorem answers_iff : op.answers name = true ↔ op.event = .callback ∧ op.id = some name := by
  simp [Operation.answers]

theorem answersTo_append (name : String) (ops more : List Operation) :
    answersTo name (ops ++ more) = answersTo name ops ++ answersTo name more :=
  List.filter_append ..

theorem answersTo_wire (name : String) (hsettled : ∀ o ∈ ops, o.event.Settled) :
    answersTo name (ops.map Operation.wire) = (answersTo name ops).map Operation.wire := by
  unfold answersTo
  rw [List.filter_map]
  congr 1
  refine List.filter_congr fun o ho => ?_
  unfold Operation.answers
  dsimp only [Function.comp]
  rw [Operation.wire_event (hsettled o ho), Operation.wire_id]

theorem asks_of_mem_answers {o : Operation} (ho : o ∈ h.answers op) :
    ∃ name, o.answers name = true ∧ op.Asks name := by
  unfold Host.answers at ho
  split at ho
  · next hevent =>
    split at ho
    · next id paths callbackId _ hpayload =>
      split at ho
      · rw [List.mem_singleton.1 ho]
        exact ⟨callbackId, answers_iff.2 ⟨rfl, rfl⟩, .inl ⟨hevent, _, hpayload, rfl⟩⟩
      · cases ho
    · cases ho
  · cases ho

theorem answersTo_applied (name : String) (happlied : Host.Applied h op k ops) :
    answersTo name (ops.map Operation.wire) =
      (answersTo name (h.answers op)).map Operation.wire := by
  have hsame : answersTo name ops = answersTo name (h.answers op) := by
    rw [← happlied.answers]
    unfold answersTo
    rw [List.filter_filter]
    refine List.filter_congr fun o _ => ?_
    unfold Operation.answers
    rw [← Bool.decide_and]
    simp only [and_right_comm, and_self]
  rw [answersTo_wire name happlied.settled, hsame]

theorem answersTo_eq_nil (happlied : Host.Applied h op k ops) (hasks : ¬op.Asks name) :
    answersTo name (ops.map Operation.wire) = [] := by
  have hnone : answersTo name (h.answers op) = [] := by
    refine List.filter_eq_nil_iff.2 fun o ho hname => ?_
    obtain ⟨other, hother, hasked⟩ := asks_of_mem_answers ho
    rw [answers_iff] at hname hother
    rw [hname.2] at hother
    exact hasks (Option.some.inj hother.2 ▸ hasked)
  rw [answersTo_applied name happlied, hnone, List.map_nil]

theorem answersTo_question {H : Type} {q : Question H}
    (happlied : Host.Applied h q.operation.wire k ops) :
    answersTo q.callbackId (ops.map Operation.wire) =
      (h.answers q.operation.wire).map Operation.wire := by
  have hall : answersTo q.callbackId (h.answers q.operation.wire) = h.answers q.operation.wire := by
    refine List.filter_eq_self.2 fun o ho => ?_
    obtain ⟨other, hother, hasked⟩ := asks_of_mem_answers ho
    rw [asks_question hasked]
    exact hother
  rw [answersTo_applied _ happlied, hall]

theorem answersTo_done {deed : Deed} (hdone : Host.Done h deed k ops) (hname : name ∉ h.promised) :
    answersTo name (ops.map Operation.wire) = [] := by
  have hnone : answersTo name ops = [] := by
    refine List.filter_eq_nil_iff.2 fun o ho hanswers => hname ?_
    rw [answers_iff] at hanswers
    obtain ⟨other, hmem, hid⟩ := (hdone.sent o ho).2.2 hanswers.1
    rw [hanswers.2] at hid
    exact Option.some.inj hid ▸ hmem
  rw [answersTo_wire name hdone.settled, hnone, List.map_nil]

theorem promised_applied (happlied : Host.Applied h op k ops) (hname : name ∉ h.promised)
    (hasks : name ∉ Host.animationNames op) : name ∉ k.promised := fun hmem =>
  (happlied.promised name hmem).elim hname hasks

theorem operation?_of_own {deed : Deed} (hown : deed.IsOwn) : deed.operation? = none := by
  cases deed with
  | apply op => exact hown.elim
  | _ => rfl

theorem applied_append (deeds more : List Deed) : applied (deeds ++ more) = applied deeds ++ applied more :=
  List.filterMap_append

end Answers

namespace Flow

variable {H : Type} {f : Flow H} {name : String}

section Order

theorem sentFor_append (asked more : List (Asked H)) :
    sentFor (asked ++ more) = sentFor asked ++ sentFor more := by
  unfold sentFor
  rw [List.filterMap_append, List.map_append]

theorem sentFor_singleton (a : Asked H) : sentFor [a] = a.sent.toList.map Operation.wire := by
  unfold sentFor
  cases hsent : a.sent with
  | none => rw [List.filterMap_cons_none hsent]; rfl
  | some op => rw [List.filterMap_cons_some hsent]; rfl

theorem sentFor_question {a : Asked H} {q : Question H} (h : a.question? = some q) :
    sentFor [a] = [q.operation.wire] := by
  rw [sentFor_singleton, Asked.sent_of_question h]
  rfl

theorem mem_sentFor {op : Operation} {asked : List (Asked H)} (h : op ∈ sentFor asked) :
    ∃ a ∈ asked, ∃ sent, a.sent = some sent ∧ sent.wire = op := by
  obtain ⟨sent, hsent, rfl⟩ := List.mem_map.1 h
  obtain ⟨a, ha, hsent⟩ := List.mem_filterMap.1 hsent
  exact ⟨a, ha, sent, hsent, rfl⟩

-- What was sent is applied in order, and the rest is still on its way.
theorem applied_append_up (hf : f.Reachable) : applied f.deeds ++ f.up = sentFor f.asked := by
  induction hf with
  | start => rfl
  | @move f g hf hmove ih =>
      cases hmove with
      | ask request hplain =>
          dsimp only
          rw [sentFor_append, sentFor_singleton, ← Caller.sent_respond, ← ih, List.append_assoc]
      | apply op rest ops hup happlied =>
          dsimp only
          rw [← ih, hup, applied_append, List.append_assoc]
          rfl
      | act deed ops hown hdone =>
          dsimp only
          rw [← ih, applied_append, applied, applied, List.filterMap_cons_none (operation?_of_own hown)]
          exact congrArg (· ++ _) (List.append_nil _)
      | ship =>
          dsimp only
          rw [← ih, applied_append]
          exact congrArg (· ++ _) (List.append_nil _)
      | _ => exact ih

end Order

section Names

def ranFor (name : String) (ran : List (Option String × H × Occasion)) : List (H × Occasion) :=
  ran.filterMap fun run => if run.1 = some name then some run.2 else none

theorem ranFor_append (name : String) (ran more : List (Option String × H × Occasion)) :
    ranFor name (ran ++ more) = ranFor name ran ++ ranFor name more :=
  List.filterMap_append

theorem ranFor_answered (c : Caller H) (op : Operation) (name : String) :
    ranFor name ((c.answered op).map (op.id, ·)) =
      if op.answers name then c.answered op else [] := by
  unfold ranFor
  rw [List.filterMap_map]
  by_cases hid : op.id = some name
  · have hall : (c.answered op).filterMap
        ((fun run => if run.1 = some name then some run.2 else none) ∘ (op.id, ·)) =
          c.answered op := by
      simp only [Function.comp_def, if_pos hid]
      exact List.filterMap_some
    rw [hall]
    split
    · rfl
    · next hanswers =>
      refine Caller.answered_of_ne fun hevent => hanswers ?_
      rw [answers_iff]
      exact ⟨hevent, hid⟩
  · rw [if_neg fun hanswers => hid (answers_iff.1 hanswers).2]
    refine List.filterMap_eq_nil_iff.2 fun run _ => ?_
    exact if_neg hid

structure Silent (f : Flow H) (name : String) : Prop where
  down : answersTo name f.down = []
  promised : name ∉ f.host.promised
  ran : ranFor name f.ran = []

theorem answersTo_cons_eq_nil {op : Operation} {rest : List Operation}
    (h : answersTo name (op :: rest) = []) : op.answers name = false ∧ answersTo name rest = [] := by
  unfold answersTo at h ⊢
  rw [List.filter_cons] at h
  split at h
  · cases h
  · next hanswers => exact ⟨by simpa using hanswers, h⟩

theorem silent (hf : f.Reachable) (hasks : ∀ op ∈ sentFor f.asked, ¬op.Asks name) : f.Silent name := by
  induction hf with
  | start settings host down hregistry hanimator hdown =>
      refine ⟨List.filter_eq_nil_iff.2 fun op hop hanswers => ?_, ?_, rfl⟩
      · rw [answers_iff, hdown op hop] at hanswers
        exact nomatch hanswers.1
      · unfold Host.promised
        dsimp only
        rw [hanimator]
        exact List.not_mem_nil
  | @move f g hf hmove ih =>
      cases hmove with
      | ask request hplain =>
          obtain ⟨hdown, hpromised, hran⟩ := ih fun op hop => hasks op (by
            dsimp only
            rw [sentFor_append]
            exact List.mem_append_left _ hop)
          exact ⟨hdown, hpromised, hran⟩
      | apply op rest ops hup happlied =>
          obtain ⟨hdown, hpromised, hran⟩ := ih hasks
          have hop : ¬op.Asks name := hasks op (by
            rw [← applied_append_up hf, hup]
            exact List.mem_append_right _ List.mem_cons_self)
          refine ⟨?_, promised_applied happlied hpromised fun h => hop (.inr h), hran⟩
          dsimp only
          rw [answersTo_append, hdown, answersTo_eq_nil happlied hop]
          rfl
      | act deed ops hown hdone =>
          obtain ⟨hdown, hpromised, hran⟩ := ih hasks
          refine ⟨?_, fun hmem => hpromised (hdone.promised name hmem), hran⟩
          dsimp only
          rw [answersTo_append, hdown, answersTo_done hdone hpromised]
          rfl
      | hear op rest hdown hevent =>
          obtain ⟨hall, hpromised, hran⟩ := ih hasks
          rw [hdown] at hall
          obtain ⟨hop, hrest⟩ := answersTo_cons_eq_nil hall
          refine ⟨hrest, hpromised, ?_⟩
          dsimp only
          rw [ranFor_append, hran, ranFor_answered, hop]
          rfl
      | close op rest hdown hevent =>
          obtain ⟨hall, hpromised, hran⟩ := ih hasks
          rw [hdown] at hall
          exact ⟨(answersTo_cons_eq_nil hall).2, hpromised, hran⟩
      | ship =>
          obtain ⟨hdown, hpromised, hran⟩ := ih hasks
          exact ⟨hdown, hpromised, hran⟩

theorem callbackId_lt (hf : f.Reachable) {a : Asked H} (ha : a ∈ f.asked) {q : Question H}
    (hq : a.question? = some q) :
    ∃ n < f.caller.callbackIds.issued, q.callbackId = Issuer.idFor "Callback" n := by
  induction hf with
  | start => cases ha
  | @move f g hf hmove ih =>
      cases hmove with
      | ask request hplain =>
          rcases List.mem_append.1 ha with ha | ha
          · obtain ⟨n, hn, hid⟩ := ih ha
            exact ⟨n, Nat.lt_of_lt_of_le hn (f.caller.issued_respond request), hid⟩
          · rw [List.mem_singleton.1 ha] at hq
            have hquestioned := Caller.questioned_respond hq
            refine ⟨_, ?_, hquestioned.callbackId⟩
            dsimp only
            rw [hquestioned.issued]
            exact Nat.lt_succ_self _
      | hear op rest hdown hevent =>
          dsimp only
          rw [Caller.onset_callbackIds]
          exact ih ha
      | close op rest hdown hevent =>
          dsimp only
          rw [(f.caller.close_callbacks op).2]
          exact ih ha
      | _ => exact ih ha

-- A list that ends in one entry, cut at another.
theorem concat_eq_append_cons {α : Type} {as before after : List α} {a b : α}
    (h : as ++ [b] = before ++ a :: after) :
    (as = before ∧ b = a ∧ after = []) ∨ ∃ rest, after = rest ++ [b] ∧ as = before ++ a :: rest := by
  rcases List.eq_nil_or_concat after with rfl | ⟨rest, c, rfl⟩
  · obtain ⟨has, hb⟩ := List.append_inj' h rfl
    exact .inl ⟨has, (List.cons.inj hb).1, rfl⟩
  · rw [List.concat_eq_append, ← List.cons_append, ← List.append_assoc] at h
    obtain ⟨has, hb⟩ := List.append_inj' h rfl
    exact .inr ⟨rest, by rw [(List.cons.inj hb).1, List.concat_eq_append], has⟩

theorem issue_ne (hf : f.Reachable) {a : Asked H} (ha : a ∈ f.asked) {q : Question H}
    (hq : a.question? = some q) : (f.caller.callbackIds.issue "Callback").1 ≠ q.callbackId := by
  obtain ⟨n, hn, hid⟩ := callbackId_lt hf ha hq
  rw [hid]
  intro heq
  have := Issuer.idFor_injective heq
  omega

-- No two queries are answered under one name.
theorem questions_differ (hf : f.Reachable) {before after : List (Asked H)} {a : Asked H}
    (hasked : f.asked = before ++ a :: after) {q : Question H} (hq : a.question? = some q) :
    ∀ b ∈ before ++ after, ∀ p, b.question? = some p → p.callbackId ≠ q.callbackId := by
  induction hf generalizing after with
  | start => simp at hasked
  | @move f g hf hmove ih =>
      cases hmove with
      | ask request hplain =>
          rcases concat_eq_append_cons hasked with ⟨hbefore, rfl, rfl⟩ | ⟨rest, rfl, hrest⟩
          · intro b hb p hp heq
            rw [List.append_nil, ← hbefore] at hb
            refine issue_ne hf hb hp (heq.trans ?_).symm
            exact (Caller.questioned_respond hq).callbackId
          · intro b hb p hp
            rw [← List.append_assoc] at hb
            rcases List.mem_append.1 hb with hb | hb
            · exact ih hrest b hb p hp
            · rw [List.mem_singleton.1 hb] at hp
              have hmem : a ∈ f.asked := by
                rw [hrest]
                exact List.mem_append_right _ List.mem_cons_self
              rw [(Caller.questioned_respond hp).callbackId]
              exact issue_ne hf hmem hq
      | _ => exact ih hasked

end Names

section Course

variable {q : Question H} {answers : List Operation} {before after : List (Asked H)}

-- The empty text names no object.
theorem stateOf?_empty (hf : f.Reachable) : f.caller.objects.stateOf? "" = none := by
  induction hf with
  | start => rfl
  | @move f g hf hmove ih =>
      cases hmove with
      | ask request hplain =>
          have hother : request.concernsObjects = false →
              (f.caller.respond request).after.objects.stateOf? "" = none := fun h => by
            rw [(f.caller.respond_other h).objects, ih]
          dsimp only
          cases request with
          | create template interests =>
              rw [Caller.after_objects]
              refine (ObjectTable.stateOf?_insert _ _ _ _).trans ((if_neg ?_).trans ih)
              exact (Issuer.idFor_ne_empty _ _).symm
          | destroy target =>
              rw [Caller.after_objects]
              refine Caller.whenLive_caller (p := fun d => d.objects.stateOf? "" = none) ih ?_
              refine (ObjectTable.stateOf?_setState _ _ _ _).trans ?_
              split
              · next heq => rw [← heq, ih]; rfl
              · exact ih
          | updateInterests target changes =>
              rw [Caller.after_objects]
              refine Caller.whenLive_caller (p := fun d => d.objects.stateOf? "" = none) ih ?_
              dsimp only
              unfold Caller.interesting
              split
              · exact (ObjectTable.stateOf?_setInterests _ _ _ _).trans ih
              · exact ih
          | _ => exact hother rfl
      | hear op rest hdown hevent =>
          dsimp only
          rw [Caller.stateOf?_onset, ih]
          split <;> rfl
      | close op rest hdown hevent =>
          dsimp only
          rw [Caller.stateOf?_close, ih]
          split <;> rfl
      | _ => exact ih

-- How far the answer to a query has come, told from its continuation, from the answers on their way
-- and from what ran for them.
inductive Answering (q : Question H) (answers : List Operation) (entry : Option (Continuation H))
    (coming : List Operation) (ran : List (H × Occasion)) : Prop
  | waiting (hentry : entry = some (.once q.handler)) (hcoming : coming = answers.map Operation.wire)
      (hran : ran = [])
  | heard (op : Operation) (hanswers : answers = [op]) (hentry : entry = none) (hcoming : coming = [])
      (hran : ran = [(q.handler, .answer (op.wire.data.getD .null))])

structure Stands (f : Flow H) (q : Question H) (answers : List Operation) : Prop where
  answering : Answering q answers (f.caller.callbacks.get? q.callbackId)
    (answersTo q.callbackId f.down) (ranFor q.callbackId f.ran)
  promised : q.callbackId ∉ f.host.promised
  single : answers.length ≤ 1

-- A query is on its way behind all that was sent before it, or the host has applied it after all of
-- that.
inductive Course (f : Flow H) (q : Question H) (before : List (Asked H)) : Prop
  | travelling (pre post : List Operation) (hup : f.up = pre ++ q.operation.wire :: post)
      (hbefore : applied f.deeds ++ pre = sentFor before) (h : f.Stands q [])
  | answered (earlier later : List Deed) (hdeeds : f.deeds = earlier ++ .apply q.operation.wire :: later)
      (hbefore : applied earlier = sentFor before)
      (h : f.Stands q ((f.origin.after earlier).answers q.operation.wire))

theorem Stands.keep {g : Flow H} (h : f.Stands q answers)
    (hcallbacks : g.caller.callbacks.get? q.callbackId = f.caller.callbacks.get? q.callbackId)
    (hdown : answersTo q.callbackId g.down = answersTo q.callbackId f.down)
    (hran : ranFor q.callbackId g.ran = ranFor q.callbackId f.ran)
    (hpromised : q.callbackId ∉ f.host.promised → q.callbackId ∉ g.host.promised) :
    g.Stands q answers := by
  refine ⟨?_, hpromised h.promised, h.single⟩
  rw [hcallbacks, hdown, hran]
  exact h.answering

theorem Stands.hear (h : f.Stands q answers) {op : Operation} {rest : List Operation}
    (hdown : f.down = op :: rest) :
    Stands { f with
      caller := f.caller.onset op
      down := rest
      ran := f.ran ++ (f.caller.answered op).map (op.id, ·) } q answers := by
  by_cases hop : op.answers q.callbackId = true
  · refine ⟨?_, h.promised, h.single⟩
    have hcons : answersTo q.callbackId (op :: rest) = op :: answersTo q.callbackId rest :=
      List.filter_cons_of_pos hop
    dsimp only
    rw [ranFor_append, ranFor_answered, if_pos hop]
    cases h.answering with
    | waiting hentry hcoming hran =>
        obtain ⟨hevent, hid⟩ := answers_iff.1 hop
        obtain ⟨hruns, hgone⟩ := Caller.answered_once hevent hid hentry
        rw [hdown, hcons] at hcoming
        have hsingle := h.single
        cases answers with
        | nil => cases hcoming
        | cons a others =>
            cases others with
            | cons b others => simp at hsingle
            | nil =>
                injection hcoming with hfirst hlast
                refine .heard a rfl hgone hlast ?_
                rw [hran, hruns, hfirst]
                rfl
    | heard a hanswers hentry hcoming hran =>
        rw [hdown, hcons] at hcoming
        cases hcoming
  · refine h.keep ?_ ?_ ?_ id
    · exact Caller.callbacks_onset fun hevent hid => hop (answers_iff.2 ⟨hevent, hid⟩)
    · rw [hdown]
      exact (List.filter_cons_of_neg hop).symm
    · dsimp only
      rw [ranFor_append, ranFor_answered, if_neg hop, List.append_nil]

theorem Stands.apply (h : f.Stands q []) {host : Host} {ops rest : List Operation} {deeds : List Deed}
    (happlied : Host.Applied f.host q.operation.wire host ops) :
    Stands { f with host, up := rest, down := f.down ++ ops.map Operation.wire, deeds } q
      (f.host.answers q.operation.wire) := by
  refine ⟨?_, promised_applied happlied h.promised nofun, ?_⟩
  · cases h.answering with
    | waiting hentry hcoming hran =>
        refine .waiting hentry ?_ hran
        dsimp only
        rw [answersTo_append, hcoming, answersTo_question happlied]
        rfl
    | heard a hanswers => cases hanswers
  · unfold Host.answers
    split
    · split
      · split
        · exact Nat.le_refl _
        · exact Nat.zero_le _
      · exact Nat.zero_le _
    · exact Nat.zero_le _

theorem Course.keep {g : Flow H} (h : f.Course q before) (horigin : g.origin = f.origin)
    {ops : List Operation} (hup : g.up = f.up ++ ops) {deeds : List Deed}
    (hdeeds : g.deeds = f.deeds ++ deeds) (hnone : applied deeds = [])
    (hstands : ∀ answers, f.Stands q answers → g.Stands q answers) : g.Course q before := by
  cases h with
  | travelling pre post hsplit hbefore h =>
      refine .travelling pre (post ++ ops) ?_ ?_ (hstands _ h)
      · rw [hup, hsplit, List.append_assoc, List.cons_append]
      · rw [hdeeds, applied_append, hnone, List.append_nil, hbefore]
  | answered earlier later hsplit hbefore h =>
      refine .answered earlier (later ++ deeds) ?_ hbefore (horigin ▸ hstands _ h)
      rw [hdeeds, hsplit, List.append_assoc, List.cons_append]

theorem Course.apply (h : f.Course q before) (hf : f.Reachable)
    (horder : sentFor f.asked = sentFor before ++ q.operation.wire :: sentFor after)
    (hothers : ∀ op ∈ sentFor before ++ sentFor after, ¬op.Asks q.callbackId)
    {op : Operation} {rest ops : List Operation} (hup : f.up = op :: rest) {host : Host}
    (happlied : Host.Applied f.host op host ops) :
    Course { f with
      host
      up := rest
      down := f.down ++ ops.map Operation.wire
      deeds := f.deeds ++ [.apply op] } q before := by
  have hkeep : ∀ answers, ¬op.Asks q.callbackId → f.Stands q answers → Stands { f with
      host
      up := rest
      down := f.down ++ ops.map Operation.wire
      deeds := f.deeds ++ [.apply op] } q answers := by
    intro answers hasks hstands
    refine hstands.keep rfl ?_ rfl fun hname => promised_applied happlied hname fun hmem => hasks (.inr hmem)
    dsimp only
    rw [answersTo_append, answersTo_eq_nil happlied hasks, List.append_nil]
  have happend : applied (f.deeds ++ [.apply op]) = applied f.deeds ++ [op] := applied_append _ _
  cases h with
  | travelling pre post hsplit hbefore h =>
      rw [hup] at hsplit
      cases pre with
      | nil =>
          obtain ⟨rfl, rfl⟩ := List.cons.inj hsplit
          refine .answered f.deeds [] rfl ?_ ?_
          · rw [← hbefore, List.append_nil]
          · rw [← host_eq hf]
            exact h.apply happlied
      | cons first pre =>
          obtain ⟨rfl, rfl⟩ := List.cons.inj hsplit
          refine .travelling pre post rfl ?_ (hkeep _ (hothers op ?_) h)
          · dsimp only
            rw [happend, List.append_assoc]
            exact hbefore
          · rw [← hbefore]
            exact List.mem_append_left _ (List.mem_append_right _ List.mem_cons_self)
  | answered earlier later hsplit hbefore h =>
      have hrest : applied later ++ f.up = sentFor after := by
        have hall := applied_append_up hf
        rw [horder, hsplit, applied_append, hbefore, List.append_assoc] at hall
        exact (List.cons.inj (List.append_cancel_left hall)).2
      refine .answered earlier (later ++ [.apply op]) ?_ hbefore (hkeep _ (hothers op ?_) h)
      · rw [hsplit, List.append_assoc, List.cons_append]
      · rw [← hrest, hup]
        exact List.mem_append_right _ (List.mem_append_right _ List.mem_cons_self)

-- The host is asked under the name of a query by this query only.
theorem not_asks_others (hf : f.Reachable) {a : Asked H} (hasked : f.asked = before ++ a :: after)
    (hq : a.question? = some q) (hnames : ∀ b ∈ f.asked, q.callbackId ∉ b.names) :
    ∀ op ∈ sentFor before ++ sentFor after, ¬op.Asks q.callbackId := by
  intro op hop hasks
  rw [← sentFor_append] at hop
  obtain ⟨b, hb, sent, hsent, rfl⟩ := mem_sentFor hop
  rcases asks_sent hsent hasks with ⟨p, hp, heq⟩ | hname
  · exact questions_differ hf hasked hq b hb p hp heq
  · refine hnames b ?_ hname
    rw [hasked]
    rcases List.mem_append.1 hb with hb | hb
    · exact List.mem_append_left _ hb
    · exact List.mem_append_right _ (List.mem_cons_of_mem _ hb)

theorem course_asked (hf : f.Reachable) {request : Request H}
    (hq : Asked.question? ⟨request, (f.caller.respond request).reply⟩ = some q)
    (hnames : ∀ b ∈ f.asked, q.callbackId ∉ b.names) :
    Course { f with
      caller := (f.caller.respond request).after
      up := f.up ++ (f.caller.respond request).sent.toList.map Operation.wire
      asked := f.asked ++ [⟨request, (f.caller.respond request).reply⟩] } q f.asked := by
  have hquestioned := Caller.questioned_respond hq
  have hsilent : f.Silent q.callbackId := silent hf fun op hop hasks => by
    obtain ⟨b, hb, sent, hsent, rfl⟩ := mem_sentFor hop
    rcases asks_sent hsent hasks with ⟨p, hp, heq⟩ | hname
    · exact issue_ne hf hb hp (hquestioned.callbackId.symm.trans heq.symm)
    · exact hnames b hb hname
  have hsent : (f.caller.respond request).sent = some q.operation := by
    rw [Caller.sent_respond]
    exact Asked.sent_of_question hq
  refine .travelling f.up [] ?_ (applied_append_up hf) ⟨?_, hsilent.promised, Nat.zero_le _⟩
  · dsimp only
    rw [hsent]
    rfl
  · exact .waiting hquestioned.waiting hsilent.down hsilent.ran

theorem course (hf : f.Reachable) {a : Asked H} (hasked : f.asked = before ++ a :: after)
    (hq : a.question? = some q) (hclear : ∀ b ∈ after, b.request ≠ .clear q.callbackId)
    (hnames : ∀ b ∈ f.asked, q.callbackId ∉ b.names) : f.Course q before := by
  induction hf generalizing after with
  | start => simp at hasked
  | @move f g hf hmove ih =>
      cases hmove with
      | ask request hplain =>
          have hbefore : ∀ b ∈ f.asked, q.callbackId ∉ b.names := fun b hb =>
            hnames b (List.mem_append_left _ hb)
          rcases concat_eq_append_cons hasked with ⟨rfl, rfl, rfl⟩ | ⟨rest, rfl, hrest⟩
          · exact course_asked hf hq hbefore
          · have hcourse := ih hrest (fun b hb => hclear b (List.mem_append_left _ hb)) hbefore
            have hmem : a ∈ f.asked := by
              rw [hrest]
              exact List.mem_append_right _ List.mem_cons_self
            have hrequest : request ≠ .clear q.callbackId :=
              hclear _ (List.mem_append_right _ (List.mem_singleton_self _))
            refine hcourse.keep rfl rfl (List.append_nil _).symm rfl fun answers hstands => ?_
            exact hstands.keep (Caller.callbacks_respond hrequest (issue_ne hf hmem hq)) rfl rfl id
      | apply op rest ops hup happlied =>
          refine (ih hasked hclear hnames).apply hf ?_ (not_asks_others hf hasked hq hnames) hup happlied
          rw [hasked, List.append_cons, sentFor_append, sentFor_append, sentFor_question hq,
            List.append_assoc]
          rfl
      | act deed ops hown hdone =>
          have hnone : applied [deed] = [] := List.filterMap_cons_none (operation?_of_own hown)
          refine (ih hasked hclear hnames).keep rfl (List.append_nil _).symm rfl hnone
            fun answers hstands => ?_
          refine hstands.keep rfl ?_ rfl fun hname hmem => hname (hdone.promised _ hmem)
          dsimp only
          rw [answersTo_append, answersTo_done hdone hstands.promised, List.append_nil]
      | hear op rest hdown hevent =>
          exact (ih hasked hclear hnames).keep rfl (List.append_nil _).symm (List.append_nil _).symm rfl
            fun answers hstands => hstands.hear hdown
      | close op rest hdown hevent =>
          refine (ih hasked hclear hnames).keep rfl (List.append_nil _).symm (List.append_nil _).symm rfl
            fun answers hstands => ?_
          refine hstands.keep (by rw [(f.caller.close_callbacks op).1]) ?_ rfl id
          have hop : ¬op.answers q.callbackId = true := fun hanswers => by
            rw [answers_iff, hevent] at hanswers
            exact nomatch hanswers.1
          rw [hdown]
          exact (List.filter_cons_of_neg hop).symm
      | ship =>
          exact (ih hasked hclear hnames).keep rfl (List.append_nil _).symm rfl rfl
            fun answers hstands => hstands.keep rfl rfl rfl id

theorem question_id_ne (hf : f.Reachable) {a : Asked H} (ha : a ∈ f.asked) (hq : a.question? = some q) :
    q.id ≠ "" := by
  induction hf with
  | start => cases ha
  | @move f g hf hmove ih =>
      cases hmove with
      | ask request hplain =>
          rcases List.mem_append.1 ha with ha | ha
          · exact ih ha
          · rw [List.mem_singleton.1 ha] at hq
            intro hid
            have hlive := (Caller.questioned_respond hq).live
            rw [ObjectTable.isLive_iff, hid, stateOf?_empty hf] at hlive
            simp at hlive
      | _ => exact ih ha

end Course

section Query

theorem answers_question {q : Question H} (hparsed : Path.AllParsed q.paths) (hid : q.id ≠ "")
    (h : Host) : h.answers q.operation.wire = match h.world.registry.get? q.id with
      | some handle =>
        [Operation.callback q.callbackId (.record (h.world.query (.object handle) q.paths).value)]
      | none => [] := by
  have hname : nonEmpty? q.operation.wire.id = some q.id := by
    change (some q.id).filter (· ≠ "") = some q.id
    simp [hid]
  have hpayload : q.operation.wire.payload QueryRequest.ofJson? =
      .ok { query := q.paths, callbackId := some q.callbackId } :=
    Operation.payload_query q.id hparsed q.callbackId
  have hevent : q.operation.wire.event = .query := rfl
  cases hheld : h.world.registry.get? q.id with
  | none => simp only [Host.answers, hevent, hname, hpayload, hheld, if_true]
  | some handle => simp only [Host.answers, hevent, hname, hpayload, hheld, if_true]

theorem data_callback (name : String) (results : Dict String Json) :
    ((Operation.callback name (.record results)).wire.data).getD .null = (Json.record results).reread := by
  rw [Operation.wire_data]
  rfl

end Query

end Flow

end SceneLink
