import SceneLink.Proofs.Caller.Echo
import SceneLink.Proofs.Session.Boundaries

namespace SceneLink

variable {H N : Type}

inductive Incident (H N : Type) where
  -- An operation is about to be routed.
  | arrived (op : Operation)
  | asked (a : Asked H)
  | noted (n : N)

def Incident.isNoted : Incident H N → Bool
  | noted _ => true
  | _ => false

namespace Reaction

-- Operations that are routed one by one.
def arrivals (ops : List Operation) (next : Reaction H (Incident H N)) : Reaction H (Incident H N) :=
  ops.foldr (fun op next => note (.arrived op) (request (.distribute op) fun _ => next)) next

-- The reaction with its full account. A batch is opened, so that each operation has its note.
def recounting : Reaction H N → Reaction H (Incident H N)
  | done => done
  | note n next => note (.noted n) next.recounting
  | request (.receive raw) next => arrivals (Session.opsOf raw) (next (.ok .unit)).recounting
  | request (.distribute op) next => arrivals [op] (next (.ok .unit)).recounting
  | request r next => request r fun reply => note (.asked ⟨r, reply⟩) (next reply).recounting

end Reaction

namespace Caller

def echo (output : List (Happening H (Incident H N))) : List (Happening H N) :=
  output.filterMap fun
    | .ran handler occasion => some (.ran handler occasion)
    | .noted (.noted n) => some (.noted n)
    | _ => none

section Recounts

variable {α : Type}

theorem echo_append (a b : List (Happening H (Incident H N))) : echo (a ++ b) = echo a ++ echo b :=
  List.filterMap_append

theorem echo_lines (lines : List Log.Line) :
    echo (lines.map (Happening.line : Log.Line → Happening H (Incident H N))) = [] := by
  induction lines with
  | nil => rfl
  | cons line lines ih => exact ih

-- A turn with the full account of another one.
def Recounts (p : Turn H (Incident H N) α) (q : Turn H N α) : Prop :=
  Echoes ⟨echo, echo_append, echo_lines⟩ ⟨acts, acts_append, acts_lines⟩ p q

theorem Recounts.same {p : Turn H (Incident H N) Unit} {q q' : Turn H N Unit} (h : Recounts p q)
    (hsame : Same q q') : Recounts p q' := fun c =>
  ⟨(h c).1.trans (hsame c).1, (h c).2.trans (hsame c).2⟩

-- A note of the full account is no part of what it accounts for.
theorem Recounts.tell {i : Incident H N} (hi : i.isNoted = false) {p : Turn H (Incident H N) α}
    {q : Turn H N α} (h : Recounts p q) : Recounts (Turn.tell (.noted i) >>= fun _ => p) q := by
  intro c
  obtain ⟨hvalue, hecho⟩ := h c
  refine ⟨hvalue, ?_⟩
  change echo (.noted i :: (p c).output) = acts _
  rw [← show echo (p c).output = acts (q c).output from hecho]
  cases i with
  | noted n => cases hi
  | _ => rfl

end Recounts

section Routing

variable {full : Runner H (Incident H N)} {run : Runner H N}

theorem perform_distribute (run : Runner H N) (op : Operation) : perform run (.distribute op) =
    distribute run op >>= fun _ => pure (.ok .unit) := rfl

theorem perform_receive (run : Runner H N) (raw : String) : perform run (.receive raw) =
    receive run raw >>= fun _ => pure (.ok .unit) := rfl

theorem react_arrivals_cons (full : Runner H (Incident H N)) (op : Operation) (ops : List Operation)
    (next : Reaction H (Incident H N)) : react full (Reaction.arrivals (op :: ops) next) =
      Turn.tell (.noted (.arrived op)) >>= fun _ => distribute full op >>= fun _ =>
        react full (Reaction.arrivals ops next) := by
  change (Turn.tell (.noted (.arrived op)) >>= fun _ => perform full (.distribute op) >>= fun _ =>
    react full (Reaction.arrivals ops next)) = _
  rw [perform_distribute, bind_assoc]
  simp only [pure_bind]

theorem arrivals_recounts (hrun : ∀ handler occasion, Recounts (full handler occasion) (run handler occasion))
    (ops : List Operation) {next : Reaction H (Incident H N)} {q : Turn H N Unit}
    (hnext : Recounts (react full next) q) :
    Recounts (react full (Reaction.arrivals ops next)) (distributeAll run ops >>= fun _ => q) := by
  induction ops with
  | nil => exact hnext
  | cons op ops ih =>
      rw [react_arrivals_cons, distributeAll, bind_assoc]
      exact Recounts.tell rfl ((distribute_echoes hrun op).bind fun _ => ih)

theorem react_recounts (hrun : ∀ handler occasion, Recounts (full handler occasion) (run handler occasion))
    (reaction : Reaction H N) : Recounts (react full reaction.recounting) (react run reaction) := by
  have hasked {request : Request H} {f : Reply → Turn H (Incident H N) Unit} {g : Reply → Turn H N Unit}
      (hrequest : request.IsPlain ∨ ∃ t, request = .rewire t) (hf : ∀ reply, Recounts (f reply) (g reply)) :
      Recounts
        (perform full request >>= fun reply =>
          Turn.tell (.noted (.asked ⟨request, reply⟩)) >>= fun _ => f reply)
        (perform run request >>= g) :=
    (perform_echoes request hrequest).bind fun reply => (hf reply).tell rfl
  induction reaction with
  | done => exact echoes_pure _
  | note n next ih =>
      have htell : Recounts (Turn.tell (.noted (.noted n)) : Turn H (Incident H N) Unit) (Turn.tell (.noted n)) :=
        fun _ => ⟨rfl, rfl⟩
      exact htell.bind fun _ => ih
  | request request next ih =>
      cases request with
      | receive raw =>
          have harrivals := arrivals_recounts hrun (Session.opsOf raw) (ih (.ok .unit))
          change Recounts _ (perform run (.receive raw) >>= fun reply => react run (next reply))
          rw [perform_receive, bind_assoc]
          exact harrivals.same ((receive_same run raw).symm.bind fun c => ⟨rfl, rfl⟩)
      | distribute op =>
          have harrivals := arrivals_recounts hrun [op] (ih (.ok .unit))
          change Recounts _ (perform run (.distribute op) >>= fun reply => react run (next reply))
          rw [perform_distribute, bind_assoc]
          rwa [distributeAll, distributeAll, bind_assoc] at harrivals
      | rewire transport => exact hasked (.inr ⟨transport, rfl⟩) ih
      | _ => exact hasked (.inl trivial) ih

end Routing

section Lives

-- Handlers that keep the full account.
def recountingRunner (behave : H → Occasion → Reaction H N) (depth : Nat) : Runner H (Incident H N) :=
  runWithin (fun handler occasion => (behave handler occasion).recounting) depth

theorem runWithin_recounts (behave : H → Occasion → Reaction H N) (depth : Nat) (handler : H)
    (occasion : Occasion) :
    Recounts (recountingRunner behave depth handler occasion) (runWithin behave depth handler occasion) := by
  have htell : ∀ handler occasion,
      Recounts (Turn.tell (.ran handler occasion) : Turn H (Incident H N) Unit)
        (Turn.tell (.ran handler occasion)) :=
    fun _ _ _ => ⟨rfl, rfl⟩
  induction depth generalizing handler occasion with
  | zero => exact htell handler occasion
  | succ depth ih => exact (htell handler occasion).bind fun _ => react_recounts ih _

structure Call (H N : Type) where
  behave : H → Occasion → Reaction H N
  depth : Nat
  request : Request H

def lead : List (Call H N) → Turn H N Unit
  | [] => return
  | call :: calls => do
    let _ ← perform (runWithin call.behave call.depth) call.request
    lead calls

def recount : List (Call H N) → Turn H (Incident H N) Unit
  | [] => return
  | call :: calls => do
    react (recountingRunner call.behave call.depth) (Reaction.request call.request fun _ => .done).recounting
    recount calls

theorem recount_recounts (calls : List (Call H N)) : Recounts (recount calls) (lead calls) := by
  induction calls with
  | nil => exact echoes_pure _
  | cons call calls ih =>
      have hcall := react_recounts (runWithin_recounts call.behave call.depth)
        (Reaction.request call.request fun _ => .done)
      have hlead : lead (call :: calls) =
          react (runWithin call.behave call.depth) (.request call.request fun _ => .done) >>= fun _ =>
            lead calls := by
        change _ = (perform (runWithin call.behave call.depth) call.request >>= fun _ => pure ()) >>= fun _ => _
        rw [bind_assoc]
        simp only [pure_bind]
        rfl
      rw [hlead]
      exact hcall.bind fun _ => ih

end Lives

end Caller

end SceneLink
