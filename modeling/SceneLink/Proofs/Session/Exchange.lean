import SceneLink.Exchange
import SceneLink.Proofs.Caller.Echo
import SceneLink.Proofs.Session.Flow

namespace SceneLink

variable {H N : Type}

namespace Reaction

def silent : Reaction H N → Reaction H Unit
  | done => done
  | note _ next => next.silent
  | request r next => request r fun reply => (next reply).silent

theorem noting_silent (reaction : Reaction H N) : reaction.silent.noting = reaction.noting := by
  induction reaction with
  | done => rfl
  | note n next ih => exact ih
  | request r next ih =>
      have hnext : (fun reply => note ⟨r, reply⟩ (next reply).silent.noting) =
          fun reply => note ⟨r, reply⟩ (next reply).noting :=
        funext fun reply => congrArg _ (ih reply)
      exact congrArg (request r) hnext

theorem IsPlain.silent {reaction : Reaction H N} (h : reaction.IsPlain) : reaction.silent.IsPlain := by
  induction reaction with
  | done => trivial
  | note n next ih => exact ih h
  | request r next ih => exact ⟨h.1, fun reply => ih reply (h.2 reply)⟩

end Reaction

namespace Session

variable {s t u : Session H} {passed later : List (Session H)}

def exchange (s : Session H) : Exchange H := ⟨s.caller, s.host, s.up, s.down⟩

-- Steps one after the other. What a step hands over is in the channels before the next; the sessions that are passed
-- are those in between.
inductive Steps : Session H → List (Session H) → Session H → Prop
  | nil (s : Session H) : Steps s [] s
  | cons {s t u : Session H} {passed : List (Session H)} (hstep : Step s t) (h : Steps t.ship passed u) :
      Steps s (t :: passed) u

theorem Steps.append (h : Steps s passed t) (h' : Steps t later u) : Steps s (passed ++ later) u := by
  induction h with
  | nil => exact h'
  | cons hstep _ ih => exact .cons hstep (ih h')

theorem Reachable.steps (hs : s.Reachable) (h : Steps s passed t) (hfits : ∀ u ∈ passed, u.Fits) :
    t.Reachable := by
  induction h with
  | nil => exact hs
  | cons hstep _ ih =>
      obtain ⟨hfirst, hrest⟩ := List.forall_mem_cons.1 hfits
      exact ih (hs.step hstep hfirst) hrest

theorem ship_exchange (s : Session H) : s.ship.exchange = s.exchange.ship := rfl

section Arrivals

theorem arriveAtHost_steps (count : Nat) (s : Session H) : ∃ passed t, Steps s passed t ∧
    t.exchange = (Exchange.arriveAtHost count s.exchange : Logged (Happening H N) _).value.2 := by
  induction count generalizing s with
  | zero => exact ⟨[], s, .nil s, rfl⟩
  | succ count ih =>
      have hshown : s.exchange = ⟨s.caller, s.host, s.up, s.down⟩ := rfl
      cases hup : s.up with
      | nil =>
          rw [hup] at hshown
          exact ⟨[], s, .nil s, hshown ▸ rfl⟩
      | cons raw rest =>
          rw [hup] at hshown
          obtain ⟨passed, t, hsteps, ht⟩ := ih (s.takeUp raw rest).ship
          exact ⟨_, t, .cons (.takeUp s raw rest hup) hsteps, hshown ▸ ht⟩

variable {behave : H → Occasion → Reaction H N}

-- A batch that the caller receives is heard by a session, whatever notes the handlers leave.
theorem takeDown_exchange (hplain : ∀ handler occasion, (behave handler occasion).IsPlain) (depth : Nat)
    (s : Session H) (raw : String) (rest : List String) :
    (takeDown (fun _ handler occasion => (behave handler occasion).silent) depth s raw rest).exchange =
      ⟨(Caller.receive (Caller.runWithin behave depth) raw s.caller).value.2, s.host, s.up, rest⟩ := by
  have hnoting : Caller.notingRunner (fun handler occasion => (behave handler occasion).silent) depth =
      Caller.notingRunner behave depth := by
    unfold Caller.notingRunner
    simp only [Reaction.noting_silent]
  have hcaller := receive_caller (fun handler occasion => (behave handler occasion).silent) depth
    { s with down := rest } raw
  rw [hnoting, Caller.receive_noting hplain] at hcaller
  obtain ⟨hhost, hup, hdown, -, -⟩ := hearAll_keeps
    (fun _ handler occasion => (behave handler occasion).silent) depth { s with down := rest } (opsOf raw)
  unfold takeDown exchange
  rw [← hcaller, hhost, hup, hdown]

theorem arriveAtCaller_steps (hplain : ∀ handler occasion, (behave handler occasion).IsPlain) (depth count : Nat)
    (s : Session H) : ∃ passed t, Steps s passed t ∧
      t.exchange = (Exchange.arriveAtCaller (Caller.runWithin behave depth) count s.exchange).value.2 := by
  induction count generalizing s with
  | zero => exact ⟨[], s, .nil s, rfl⟩
  | succ count ih =>
      have hshown : s.exchange = ⟨s.caller, s.host, s.up, s.down⟩ := rfl
      cases hdown : s.down with
      | nil =>
          rw [hdown] at hshown
          exact ⟨[], s, .nil s, hshown ▸ rfl⟩
      | cons raw rest =>
          rw [hdown] at hshown
          have hstep : Step s _ := .takeDown s raw rest hdown
            (fun _ handler occasion => (behave handler occasion).silent) depth
            fun _ handler occasion => (hplain handler occasion).silent
          obtain ⟨passed, t, hsteps, ht⟩ := ih (Session.ship _)
          rw [ship_exchange, takeDown_exchange hplain depth s raw rest] at ht
          exact ⟨_, t, .cons hstep hsteps, hshown ▸ ht⟩

end Arrivals

section Rounds

variable {behave : H → Occasion → Reaction H N}

theorem round_steps (hplain : ∀ handler occasion, (behave handler occasion).IsPlain) (depth : Nat)
    (s : Session H) : ∃ passed t, Steps s passed t ∧
      t.exchange = (Exchange.round (Caller.runWithin behave depth) s.exchange).value.2 := by
  have hticked : Steps s [s.ask .tick] (s.ask .tick).ship := .cons (.ask s .tick trivial) (.nil _)
  let x := (s.ask .tick).ship.exchange
  obtain ⟨up, t, hup, ht⟩ := arriveAtHost_steps (N := N) x.up.length (s.ask .tick).ship
  obtain ⟨down, u, hdown, hu⟩ := arriveAtCaller_steps hplain depth x.down.length t
  refine ⟨_, u, hticked.append (hup.append hdown), hu.trans ?_⟩
  rw [ht]
  rfl

theorem settle_succ (run : Caller.Runner H N) (limit : Nat) (x : Exchange H) :
    (Exchange.settle run (limit + 1) x).value.2 =
      if (Exchange.round run x).value.1.isEmpty then (Exchange.round run x).value.2
      else (Exchange.settle run limit (Exchange.round run x).value.2).value.2 := by
  change ((if (Exchange.round run x).value.1.isEmpty then pure _ else _ : Exchange.Turn H N _)
    (Exchange.round run x).value.2).value.2 = _
  split <;> rfl

-- What an exchange does until it settles is a series of steps of a session. So as long as the payloads fit into their
-- batches, all that holds of reachable sessions holds of it.
theorem settle_steps (hplain : ∀ handler occasion, (behave handler occasion).IsPlain) (depth limit : Nat)
    (s : Session H) : ∃ passed t, Steps s passed t ∧
      t.exchange = (Exchange.settle (Caller.runWithin behave depth) limit s.exchange).value.2 ∧
      (s.Reachable → (∀ u ∈ passed, u.Fits) → t.Reachable) := by
  suffices hsteps : ∃ passed t, Steps s passed t ∧
      t.exchange = (Exchange.settle (Caller.runWithin behave depth) limit s.exchange).value.2 by
    obtain ⟨passed, t, hsteps, ht⟩ := hsteps
    exact ⟨passed, t, hsteps, ht, fun hs hfits => hs.steps hsteps hfits⟩
  induction limit generalizing s with
  | zero => exact ⟨[], s, .nil s, rfl⟩
  | succ limit ih =>
      obtain ⟨passed, t, hround, ht⟩ := round_steps hplain depth s
      rw [settle_succ]
      split
      · exact ⟨passed, t, hround, ht⟩
      · obtain ⟨later, u, hrest, hu⟩ := ih t
        exact ⟨_, u, hround.append hrest, ht ▸ hu⟩

end Rounds

end Session

end SceneLink
