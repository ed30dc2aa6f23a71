import SceneLink.Proofs.Caller.Callbacks
import SceneLink.Proofs.Caller.Ledger

namespace SceneLink

variable {H N : Type}

-- What a continuation makes of the answers that reach it.
def Continuation.runs : Continuation H → List Json → List (H × Json)
  | .once handler, answers => (answers.take 1).map (handler, ·)
  | .persistent handler, answers => answers.map (handler, ·)

namespace Beat

-- What ran for an identifier: with each answer that has a run right behind it, that run.
def responses (id : String) : List (Beat H) → List (H × Json)
  | .arrived op :: .ran handler (.answer data) :: late =>
    if op.answered? = some id then (handler, data) :: responses id late else responses id late
  | _ :: late => responses id late
  | [] => []

def heard (id : String) (beats : List (Beat H)) : List Json :=
  beats.filterMap fun
    | .arrived op => if op.answered? = some id then some (op.data.getD .null) else none
    | _ => none

def untilCleared (id : String) (beats : List (Beat H)) : List (Beat H) :=
  beats.takeWhile fun
    | .asked a => !a.filing.clears id
    | _ => true

def issued (beats : List (Beat H)) : Nat :=
  beats.countP fun
    | .asked a => a.filing.issues
    | _ => false

theorem untilCleared_cons (id : String) (a : Asked H) (beats : List (Beat H)) :
    untilCleared id (.asked a :: beats) =
      if a.filing.clears id then [] else .asked a :: untilCleared id beats := by
  unfold untilCleared
  rw [List.takeWhile_cons]
  by_cases hclear : a.filing.clears id = true
  · rw [if_pos hclear, if_neg (by simp [hclear])]
  · rw [if_neg hclear, if_pos (by simpa using hclear)]

private theorem heard_arrived (id : String) (op : Operation) (beats : List (Beat H)) :
    heard id (.arrived op :: beats) =
      if op.answered? = some id then op.data.getD .null :: heard id beats else heard id beats := by
  unfold heard
  rw [List.filterMap_cons]
  dsimp only
  by_cases hop : op.answered? = some id
  · rw [if_pos hop, if_pos hop]
  · rw [if_neg hop, if_neg hop]

private theorem heard_ran (id : String) (handler : H) (occasion : Occasion) (beats : List (Beat H)) :
    heard id (.ran handler occasion :: beats) = heard id beats := rfl

private theorem responses_asked (id : String) (a : Asked H) (beats : List (Beat H)) :
    responses id (.asked a :: beats) = responses id beats := by
  rw [responses]
  exact nofun

private theorem responses_arrived {id : String} {op : Operation} {beats : List (Beat H)}
    (h : ∀ handler data late, beats ≠ .ran handler (.answer data) :: late) :
    responses id (.arrived op :: beats) = responses id beats := by
  rw [responses]
  intro op handler data late _ hbeats
  exact h handler data late hbeats

-- A request comes between an answer and a run, so none is lost where the beats are cut at a request.
theorem responses_append (id : String) (early : List (Beat H)) (a : Asked H) (late : List (Beat H)) :
    responses id (early ++ .asked a :: late) = responses id early ++ responses id late := by
  fun_induction responses id early with
  | case1 op handler data rest hid ih =>
      rw [List.cons_append, List.cons_append, responses, if_pos hid, ih, List.cons_append]
  | case2 op handler data rest hid ih =>
      rw [List.cons_append, List.cons_append, responses, if_neg hid, ih]
  | case3 beat rest hne ih =>
      rw [List.cons_append, responses, ih]
      intro op handler data rest' hbeat hrest
      cases rest with
      | nil => cases hrest
      | cons beat' rest =>
          obtain ⟨hbeat', -⟩ := List.cons.inj hrest
          exact hne op handler data rest hbeat (by rw [hbeat'])
  | case4 => rfl

end Beat

namespace Ledger

variable {l : Ledger H} {id : String}

theorem get?_file {f : Filing H} (hregister : ∀ k, f ≠ .registered id k)
    (hclear : ¬ f.clears id = true) :
    (l.file f).callbacks.get? id = l.callbacks.get? id := by
  cases f with
  | registered other k =>
      have hne : id ≠ other := fun heq => hregister k (heq ▸ rfl)
      exact (Dict.get?_insert _ _ _ _).trans (if_neg hne)
  | cleared other waiting =>
      have hne : id ≠ other := fun heq => hclear (decide_eq_true heq.symm)
      exact (Dict.get?_erase _ _ _).trans (if_neg hne)
  | _ => rfl

theorem get?_file_of_clears {f : Filing H} (h : f.clears id = true) :
    (l.file f).callbacks.get? id = none := by
  cases f with
  | cleared other waiting => exact (Dict.get?_erase _ _ _).trans (if_pos (of_decide_eq_true h).symm)
  | _ => cases h

theorem get?_registered (k : Continuation H) :
    (l.file (.registered id k)).callbacks.get? id = some k :=
  (Dict.get?_insert _ _ _ _).trans (if_pos rfl)

theorem due_eq_some {op : Operation} {k : Continuation H} (h : l.due op = some k) :
    ∃ id, op.answered? = some id ∧ l.callbacks.get? id = some k :=
  Option.bind_eq_some_iff.1 h

private theorem strike_issued (op : Operation) : (l.strike op).issued = l.issued := by
  unfold strike
  split <;> rfl

private theorem strike_callbacks {op : Operation} (hop : op.answered? = some id) :
    (l.strike op).callbacks = (l.callbacks.take id).2 := by
  unfold strike
  rw [hop]

-- What the continuation that waits under an identifier makes of answers.
def reaped (l : Ledger H) (id : String) (answers : List Json) : List (H × Json) :=
  (l.callbacks.get? id).elim [] (·.runs answers)

private theorem reaped_nil : l.reaped id [] = [] := by
  unfold reaped
  cases l.callbacks.get? id with
  | none => rfl
  | some k => cases k <;> rfl

private theorem reaped_congr {m : Ledger H} (h : l.callbacks.get? id = m.callbacks.get? id)
    (answers : List Json) : l.reaped id answers = m.reaped id answers := by
  unfold reaped
  rw [h]

theorem reaped_of_get? {k : Option (Continuation H)} (h : l.callbacks.get? id = k)
    (answers : List Json) : l.reaped id answers = k.elim [] (·.runs answers) := by
  unfold reaped
  rw [h]

-- The first answer runs what waits, and the others find what it left.
theorem reaped_cons {op : Operation} {k : Continuation H} (hop : op.answered? = some id)
    (hget : l.callbacks.get? id = some k) (answer : Json) (answers : List Json) :
    l.reaped id (answer :: answers) = (k.handler, answer) :: (l.strike op).reaped id answers := by
  rw [reaped_of_get? hget]
  unfold reaped
  rw [strike_callbacks hop]
  unfold CallbackTable.take
  rw [hget]
  cases k with
  | once handler =>
      dsimp only
      rw [Dict.get?_erase, if_pos rfl]
      rfl
  | persistent handler =>
      dsimp only
      rw [hget]
      rfl

end Ledger

namespace Plays

open Beat

variable {l m : Ledger H} {beats early late : List (Beat H)} {id : String}

-- No script starts with the run of a continuation.
theorem ne_ran (h : Plays l beats m) (handler : H) (data : Json) (late : List (Beat H)) :
    beats ≠ .ran handler (.answer data) :: late := by
  cases h <;> exact nofun

-- While no continuation is registered under an identifier, what runs for it is what waits already.
theorem responses_eq (h : Plays l beats m)
    (hnew : ∀ a, .asked a ∈ beats → ∀ k, a.filing ≠ .registered id k) :
    responses id beats = l.reaped id (heard id (untilCleared id beats)) := by
  induction h with
  | nil l => exact l.reaped_nil.symm
  | @asked l m a beats htrue h ih =>
      have hrest := ih fun a ha => hnew a (List.mem_cons_of_mem _ ha)
      have hregister := hnew a List.mem_cons_self
      rw [responses_asked, hrest]
      by_cases hclear : a.filing.clears id = true
      · rw [untilCleared_cons, if_pos hclear, Ledger.reaped_of_get? (Ledger.get?_file_of_clears hclear)]
        exact l.reaped_nil.symm
      · rw [untilCleared_cons, if_neg hclear]
        exact Ledger.reaped_congr (Ledger.get?_file hregister hclear) _
  | @answered l m op k beats hdue h ih =>
      have hrest := ih fun a ha => hnew a (List.mem_cons_of_mem _ (List.mem_cons_of_mem _ ha))
      obtain ⟨other, hop, hget⟩ := Ledger.due_eq_some hdue
      have hgo : untilCleared id (.arrived op :: .ran k.handler (.answer (op.data.getD .null)) :: beats) =
          .arrived op :: .ran k.handler (.answer (op.data.getD .null)) :: untilCleared id beats := rfl
      rw [responses, hgo, hrest, heard_arrived, heard_ran]
      by_cases hid : other = id
      · rw [hid] at hop hget
        rw [if_pos hop, if_pos hop]
        exact (Ledger.reaped_cons hop hget _ _).symm
      · have hne : op.answered? ≠ some id := fun heq => hid (Option.some.inj (hop.symm.trans heq))
        rw [if_neg hne, if_neg hne]
        refine Ledger.reaped_congr ?_ _
        rw [Ledger.strike_callbacks hop]
        exact Caller.get?_take _ _ _ (Ne.symm hid)
  | @unanswered l m op beats hdue h ih =>
      have hrest := ih fun a ha => hnew a (List.mem_cons_of_mem _ ha)
      have hgo : untilCleared id (.arrived op :: beats) = .arrived op :: untilCleared id beats := rfl
      rw [responses_arrived h.ne_ran, hgo, hrest, heard_arrived]
      by_cases hop : op.answered? = some id
      · have hnone : l.callbacks.get? id = none := by
          unfold Ledger.due at hdue
          rwa [hop] at hdue
        rw [if_pos hop, Ledger.reaped_of_get? hnone, Ledger.reaped_of_get? hnone]
        rfl
      · rw [if_neg hop]
  | event h ih => exact ih fun a ha => hnew a (List.mem_cons_of_mem _ ha)

theorem issued_eq (h : Plays l beats m) : m.issued = l.issued + issued beats := by
  induction h with
  | nil l => rfl
  | @asked l m a beats htrue h ih =>
      have hcons : issued (.asked a :: beats) = issued beats + if a.filing.issues then 1 else 0 :=
        List.countP_cons
      have hfile : (l.file a.filing).issued = l.issued + if a.filing.issues then 1 else 0 := by
        cases a.filing <;> rfl
      rw [ih, hcons, hfile]
      omega
  | answered hdue h ih =>
      rw [ih, Ledger.strike_issued]
      rfl
  | unanswered hdue h ih => exact ih
  | event h ih => exact ih

-- What waits in the end waited already, or was registered.
theorem waiting_cases (h : Plays l beats m) {k : Continuation H} (hget : m.callbacks.get? id = some k) :
    l.callbacks.get? id = some k ∨ ∃ a, .asked a ∈ beats ∧ a.filing = .registered id k := by
  induction h with
  | nil l => exact .inl hget
  | @asked l m a beats htrue h ih =>
      rcases ih hget with hearly | ⟨a', ha', hfiling⟩
      · by_cases hregister : ∃ k, a.filing = .registered id k
        · obtain ⟨k', hfiling⟩ := hregister
          rw [hfiling, Ledger.get?_registered] at hearly
          exact .inr ⟨a, List.mem_cons_self, Option.some.inj hearly ▸ hfiling⟩
        · refine .inl ?_
          rw [← hearly, Ledger.get?_file fun k heq => hregister ⟨k, heq⟩]
          intro hclear
          rw [Ledger.get?_file_of_clears hclear] at hearly
          cases hearly
      · exact .inr ⟨a', List.mem_cons_of_mem _ ha', hfiling⟩
  | @answered l m op k' beats hdue h ih =>
      obtain ⟨other, hop, -⟩ := Ledger.due_eq_some hdue
      rcases ih hget with hearly | ⟨a', ha', hfiling⟩
      · rw [Ledger.strike_callbacks hop] at hearly
        refine .inl ?_
        unfold CallbackTable.take at hearly
        split at hearly
        · exact hearly
        · rw [Dict.get?_erase] at hearly
          split at hearly
          · cases hearly
          · exact hearly
      · exact .inr ⟨a', List.mem_cons_of_mem _ (List.mem_cons_of_mem _ ha'), hfiling⟩
  | unanswered hdue h ih =>
      rcases ih hget with hearly | ⟨a', ha', hfiling⟩
      · exact .inl hearly
      · exact .inr ⟨a', List.mem_cons_of_mem _ ha', hfiling⟩
  | event h ih =>
      rcases ih hget with hearly | ⟨a', ha', hfiling⟩
      · exact .inl hearly
      · exact .inr ⟨a', List.mem_cons_of_mem _ ha', hfiling⟩

section Split

-- A script cut in two: either the ledger can be read at the cut, or the cut is between an answer
-- and what runs for it.
inductive Cut (l : Ledger H) : List (Beat H) → List (Beat H) → Ledger H → Prop
  | clean {early late : List (Beat H)} {m n : Ledger H} (h : Plays l early m) (h' : Plays m late n) :
      Cut l early late n
  | prompt {before rest : List (Beat H)} {op : Operation} {k : Continuation H} {m n : Ledger H}
      (h : Plays l before m) (hdue : m.due op = some k) (h' : Plays (m.strike op) rest n) :
      Cut l (before ++ [.arrived op]) (.ran k.handler (.answer (op.data.getD .null)) :: rest) n

theorem Cut.after {start : List (Beat H)} {n : Ledger H} (h : Plays l start m) (hcut : Cut m early late n) :
    Cut l (start ++ early) late n := by
  cases hcut with
  | clean h' h'' => exact .clean (h.append h') h''
  | prompt h' hdue h'' =>
      rw [← List.append_assoc]
      exact .prompt (h.append h') hdue h''

theorem cut {n : Ledger H} (h : Plays l beats n) (hbeats : beats = early ++ late) : Cut l early late n := by
  induction h generalizing early with
  | nil l =>
      obtain ⟨rfl, rfl⟩ := List.append_eq_nil_iff.1 hbeats.symm
      exact .clean (.nil l) (.nil l)
  | asked htrue h ih =>
      cases early with
      | nil =>
          obtain rfl : _ = late := hbeats
          exact .clean (.nil _) (.asked htrue h)
      | cons beat early =>
          obtain ⟨rfl, hrest⟩ := List.cons.inj hbeats
          exact (ih hrest).after (.asked htrue (.nil _))
  | answered hdue h ih =>
      match early with
      | [] =>
          obtain rfl : _ = late := hbeats
          exact .clean (.nil _) (.answered hdue h)
      | [beat] =>
          obtain ⟨rfl, rfl⟩ := List.cons.inj hbeats
          exact .prompt (.nil _) hdue h
      | beat :: beat' :: early =>
          obtain ⟨rfl, hrest⟩ := List.cons.inj hbeats
          obtain ⟨rfl, hrest'⟩ := List.cons.inj hrest
          exact (ih hrest').after (.answered hdue (.nil _))
  | unanswered hdue h ih =>
      cases early with
      | nil =>
          obtain rfl : _ = late := hbeats
          exact .clean (.nil _) (.unanswered hdue h)
      | cons beat early =>
          obtain ⟨rfl, hrest⟩ := List.cons.inj hbeats
          exact (ih hrest).after (.unanswered hdue (.nil _))
  | event h ih =>
      cases early with
      | nil =>
          obtain rfl : _ = late := hbeats
          exact .clean (.nil _) (.event h)
      | cons beat early =>
          obtain ⟨rfl, hrest⟩ := List.cons.inj hbeats
          exact (ih hrest).after (.event (.nil _))

theorem at_asked {n : Ledger H} {a : Asked H} (h : Plays l beats n) (hbeats : beats = early ++ .asked a :: late) :
    ∃ m, Plays l early m ∧ m.Truthful a.filing ∧ Plays (m.file a.filing) late n := by
  have hcut := h.cut hbeats
  generalize hlate : (.asked a :: late : List (Beat H)) = rest at hcut
  cases hcut with
  | clean h h' =>
      rw [← hlate] at h'
      cases h' with
      | asked htrue h' => exact ⟨_, h, htrue, h'⟩
  | prompt => cases hlate

theorem at_answer {n : Ledger H} {handler : H} {data : Json} (h : Plays l beats n)
    (hbeats : beats = early ++ .ran handler (.answer data) :: late) :
    ∃ before op m k, early = before ++ [.arrived op] ∧ Plays l before m ∧ m.due op = some k ∧
      k.handler = handler ∧ data = op.data.getD .null := by
  have hcut := h.cut hbeats
  generalize hlate : (.ran handler (.answer data) :: late : List (Beat H)) = rest at hcut
  cases hcut with
  | clean h h' => exact (h'.ne_ran _ _ _ hlate.symm).elim
  | prompt h hdue h' =>
      cases hlate
      exact ⟨_, _, _, _, rfl, h, hdue, rfl, rfl⟩

end Split

theorem registered_id (h : Plays l beats m) {a : Asked H} (ha : .asked a ∈ beats) {k : Continuation H}
    (hfiling : a.filing = .registered id k) :
    ∃ n, id = Issuer.idFor "Callback" n ∧ l.issued ≤ n ∧ n < m.issued := by
  obtain ⟨early, late, hbeats⟩ := List.append_of_mem ha
  obtain ⟨d, hearly, htrue, hlate⟩ := h.at_asked hbeats
  rw [hfiling] at htrue hlate
  have hd := hearly.issued_eq
  have hm : m.issued = d.issued + 1 + issued late := hlate.issued_eq
  exact ⟨d.issued, htrue, by omega, by omega⟩

-- No identifier that was issued is registered again.
theorem responses_issued {n : Ledger H} (h : Plays m late n) {i : Nat} (hi : i < m.issued) :
    responses (Issuer.idFor "Callback" i) late =
      m.reaped (Issuer.idFor "Callback" i) (heard (Issuer.idFor "Callback" i)
        (untilCleared (Issuer.idFor "Callback" i) late)) := by
  refine h.responses_eq fun a ha k hfiling => ?_
  obtain ⟨j, hid, hj, -⟩ := h.registered_id ha hfiling
  have := Issuer.idFor_injective hid
  omega

-- From the start, nothing runs for an identifier before it is issued.
theorem responses_unissued (h : Plays ⟨[], 0⟩ early m) :
    responses (Issuer.idFor "Callback" m.issued) early = [] := by
  refine h.responses_eq fun a ha k hfiling => ?_
  obtain ⟨i, hid, -, hi⟩ := h.registered_id ha hfiling
  have := Issuer.idFor_injective hid
  omega

theorem registered_of_waiting (h : Plays ⟨[], 0⟩ early m) {k : Continuation H}
    (hget : m.callbacks.get? id = some k) :
    (∃ a, .asked a ∈ early ∧ a.filing = .registered id k) ∧
      ∃ i, id = Issuer.idFor "Callback" i ∧ i < m.issued := by
  obtain ⟨a, ha, hfiling⟩ := (h.waiting_cases hget).resolve_left nofun
  obtain ⟨i, hid, -, hi⟩ := h.registered_id ha hfiling
  exact ⟨⟨a, ha, hfiling⟩, i, hid, hi⟩

theorem issued_start (h : Plays ⟨[], 0⟩ early m) : m.issued = issued early :=
  h.issued_eq.trans (Nat.zero_add _)

end Plays

namespace Caller

open Beat

structure Disciplined (beats : List (Beat H)) : Prop where
  -- A continuation runs right after an answer arrived, with its data, and it was registered for it.
  prompted : ∀ early handler data late, beats = early ++ .ran handler (.answer data) :: late →
    ∃ before op id k a, early = before ++ [.arrived op] ∧ op.answered? = some id ∧
      data = op.data.getD .null ∧ k.handler = handler ∧ .asked a ∈ before ∧ a.filing = .registered id k
  -- It runs for the answers that arrive until it is cleared, or only for the first of them.
  registered : ∀ early a late id k, beats = early ++ .asked a :: late → a.filing = .registered id k →
    id = Issuer.idFor "Callback" (issued early) ∧
      responses id beats = k.runs (heard id (untilCleared id late))
  -- One that a failed request withdrew never runs.
  withdrawn : ∀ early a late, beats = early ++ .asked a :: late → a.filing = .withdrawn →
    responses (Issuer.idFor "Callback" (issued early)) beats = []
  -- From the request that clears it on, it runs no more.
  cleared : ∀ early a late id, beats = early ++ .asked a :: late → a.filing = .cleared id true →
    responses id late = []

theorem disciplined {beats : List (Beat H)} {n : Ledger H} (h : Plays ⟨[], 0⟩ beats n) :
    Disciplined beats := by
  refine ⟨fun early handler data late hbeats => ?_, fun early a late id k hbeats hfiling => ?_,
    fun early a late hbeats hfiling => ?_, fun early a late id hbeats hfiling => ?_⟩
  · obtain ⟨before, op, m, k, hearly, hplays, hdue, hhandler, hdata⟩ := h.at_answer hbeats
    obtain ⟨id, hop, hget⟩ := Ledger.due_eq_some hdue
    obtain ⟨⟨a, ha, hfiling⟩, -⟩ := hplays.registered_of_waiting hget
    exact ⟨before, op, id, k, a, hearly, hop, hdata, hhandler, ha, hfiling⟩
  · obtain ⟨m, hearly, htrue, hlate⟩ := h.at_asked hbeats
    rw [hfiling] at htrue hlate
    have hid : id = Issuer.idFor "Callback" m.issued := htrue
    refine ⟨hearly.issued_start ▸ hid, ?_⟩
    rw [hbeats, responses_append, hid, hearly.responses_unissued,
      hlate.responses_issued (Nat.lt_succ_self _), ← hid, Ledger.reaped_of_get? (Ledger.get?_registered k)]
    rfl
  · obtain ⟨m, hearly, -, hlate⟩ := h.at_asked hbeats
    rw [hfiling] at hlate
    have hnone : (m.file .withdrawn).callbacks.get? (Issuer.idFor "Callback" m.issued) = none := by
      change m.callbacks.get? _ = none
      refine Option.eq_none_iff_forall_ne_some.2 fun k hget => ?_
      obtain ⟨-, i, hid, hi⟩ := hearly.registered_of_waiting hget
      have := Issuer.idFor_injective hid
      omega
    rw [hbeats, ← hearly.issued_start, responses_append, hearly.responses_unissued,
      hlate.responses_issued (Nat.lt_succ_self _), Ledger.reaped_of_get? hnone]
    rfl
  · obtain ⟨m, hearly, htrue, hlate⟩ := h.at_asked hbeats
    rw [hfiling] at htrue hlate
    have hcontains : m.callbacks.contains id = true := htrue.symm
    obtain ⟨k, hget⟩ := Option.isSome_iff_exists.1 hcontains
    obtain ⟨-, i, rfl, hi⟩ := hearly.registered_of_waiting hget
    have hclears : (Filing.cleared (Issuer.idFor "Callback" i) true : Filing H).clears
        (Issuer.idFor "Callback" i) = true := decide_eq_true rfl
    rw [hlate.responses_issued hi, Ledger.reaped_of_get? (Ledger.get?_file_of_clears hclears)]
    rfl

-- Whatever the handlers of a new caller do at each beat, and whatever they remember meanwhile.
theorem Course.disciplined {settings : CallerSettings} {transport : Transport} {beats : List (Beat H)}
    {c : Caller H} (h : Course (start settings transport) beats c) : Disciplined beats :=
  Caller.disciplined (h.plays (Reachable.start settings transport).fresh)

-- Whatever is asked of a caller and whatever its handlers do. The account changes nothing: the caller
-- and its handlers fare the same without it. Any course will do, so it does not matter what handlers
-- remember from one of their runs to the next.
theorem continuations_disciplined (settings : CallerSettings) (transport : Transport) :
    (∀ calls : List (Call H N),
      (recount calls (start settings transport)).value = (lead calls (start settings transport)).value ∧
      echo (recount calls (start settings transport)).output =
        acts (lead calls (start settings transport)).output ∧
      Disciplined (script (recount calls (start settings transport)).output)) ∧
    ∀ (beats : List (Beat H)) (c : Caller H), Course (start settings transport) beats c → Disciplined beats := by
  refine ⟨fun calls => ?_, fun _ _ hcourse => hcourse.disciplined⟩
  obtain ⟨hvalue, hecho⟩ := recount_recounts calls (start settings transport)
  exact ⟨hvalue, hecho, (recount_courses calls _).disciplined⟩

-- A persistent handler that writes to the log for an answer, and that clears itself for the next one,
-- which is the same.
section Fickle

def fickle : List (Beat Unit) :=
  let answer := Operation.callback "Callback_0" .null
  [.asked ⟨.register (.persistent ()), .ok (.id "Callback_0")⟩,
    .arrived answer, .ran () (.answer .null), .asked ⟨.log "once", .ok .unit⟩,
    .arrived answer, .ran () (.answer .null), .asked ⟨.clear "Callback_0", .ok (.flag true)⟩,
    .arrived answer]

theorem fickle_course : ∃ c, Course (start {} {}) fickle c :=
  ⟨_, .asked trivial (.answered rfl rfl (.asked trivial (.answered rfl rfl (.asked trivial
    (.unanswered rfl (.nil _))))))⟩

theorem continuations_disciplined_fickle :
    Disciplined fickle ∧ responses "Callback_0" fickle = [((), .null), ((), .null)] := by
  obtain ⟨c, hcourse⟩ := fickle_course
  exact ⟨(continuations_disciplined (N := Unit) {} {}).2 fickle c hcourse, rfl⟩

end Fickle

-- A handler that hears its own answer again while it runs.
example :
    let answer := Operation.callback "Callback_0" .null
    let again : Unit → Occasion → Reaction Unit Unit := fun _ _ => .request (.distribute answer) fun _ => .done
    let calls := [⟨again, 2, .register (.once ())⟩, ⟨again, 2, .distribute answer⟩]
    let beats := script (recount calls (start {} {})).output
    heard "Callback_0" beats = [.null, .null] ∧ responses "Callback_0" beats = [((), .null)] :=
  ⟨rfl, rfl⟩

end Caller

end SceneLink
