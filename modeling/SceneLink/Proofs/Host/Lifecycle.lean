import SceneLink.Proofs.Host.Notices

namespace SceneLink

namespace Host

section Chapters

variable {h k : Host}

def actionOf : Deed → Action Unit
  | .apply op => applyLogged op
  | .flush => flush
  | .tick dt => tick dt
  | .emit id event extra => do
    let _ ← emit id event extra
  | .register id handle => register id handle
  | .arrange scene resources catalog => modify fun h =>
    { h with world := { h.world with scene, resources }, catalog }
  | .announce => announce
  | .collect => modify fun h => h.collect.2

theorem perform_eq (h : Host) (deed : Deed) : h.perform deed = (actionOf deed h).value.2 := by
  cases deed with
  | emit id event extra =>
      unfold actionOf
      rw [Procedure.bind_value]
      change (emit id event extra h).value.2 = _
      rcases (emit id event extra h).value with ⟨result, k⟩
      cases result <;> rfl
  | _ => rfl

-- What a host did for a deed, from the host that it was.
structure Chapter where
  host : Host
  deed : Deed
  trail : Entries

-- The notices of a deed: those of an operation that was applied, and no others.
def Notified (c : Chapter) : Prop :=
  match c.deed with
  | .apply op => Notice op (apply op c.host).value.1 (notices c.trail)
  | _ => notices c.trail = []

structure Chapter.Proper (c : Chapter) : Prop where
  orderly : ∀ entry ∈ c.trail, Orderly entry.1 entry.2
  notified : Notified c
  frames : ∀ dt, c.deed = .tick dt → Frames c.host c.trail

-- Chapters that follow one another.
def Chronicle : Host → List Chapter → Host → Prop
  | h, [], k => h = k
  | h, c :: rest, k => c.host = h ∧
      ∃ r next, Goes (actionOf c.deed) h c.trail r next ∧ Chronicle next rest k

def trailOf (chapters : List Chapter) : Entries := chapters.flatMap (·.trail)

theorem Chronicle.trail {chapters : List Chapter} (hc : Chronicle h chapters k) :
    Trail h (trailOf chapters) k := by
  induction chapters generalizing h with
  | nil => exact hc
  | cons c rest ih =>
      obtain ⟨-, r, next, hgoes, hrest⟩ := hc
      exact trail_append.2 ⟨next, hgoes.trail, ih hrest⟩

theorem announce_tells (h : Host) : Tells announce h fun trail _ => Conveys [] trail := by
  refine .log_bind (.moves_bind (sendLogged_value h _) (moves_queues h _) ?_)
  refine .moves_bind (Procedure.outcome_value _ _) (flush_moves _) (.looks rfl ?_)
  have hstarted : Conveys [] [(h, .queues Operation.started)] := by
    refine conveys_quiet (fun op hop => ?_) (fun _ hid => nomatch hid)
    cases hop
    decide
  exact hstarted.cons (conveys_rests _)

theorem perform_tells (hh : h.Ready) {deed : Deed} (hdeed : (∃ op, deed = .apply op) ∨ deed.IsOwn) :
    Tells (actionOf deed) h fun trail _ => Chapter.Proper ⟨h, deed, trail⟩ := by
  have hquiet {p : Action Unit} (hother : match deed with | .apply _ | .tick _ => False | _ => True)
      (hp : Tells p h fun trail _ => Conveys [] trail) :
      Tells p h fun trail _ => Chapter.Proper ⟨h, deed, trail⟩ := by
    refine hp.mono fun trail r htold => ⟨htold.orderly, ?_, fun dt heq => ?_⟩
    · unfold Notified
      cases deed with
      | apply op => exact hother.elim
      | _ => exact htold.notices
    · subst heq
      exact hother.elim
  cases deed with
  | apply op =>
      refine (applyLogged_tells hh op).mono ?_
      rintro trail r ⟨ops, htold, hnotice⟩
      refine ⟨htold.orderly, ?_, fun _ heq => nomatch heq⟩
      change Notice op (apply op h).value.1 (notices trail)
      rwa [htold.notices]
  | tick dt =>
      refine (tick_tells h dt).mono fun trail r hpost => ⟨hpost.1.orderly, hpost.1.notices, ?_⟩
      intro _ _
      exact hpost.2
  | flush => exact hquiet trivial (.moves rfl (flush_moves h) (conveys_rests h))
  | emit id event extra =>
      have hevent : (Event.ofName event).isCustom := hdeed.resolve_left nofun
      refine hquiet trivial (.bind (emit_tells hh id hevent extra) (fun trail a k htold => ?_) ?_)
      · exact .looks rfl (by rwa [List.append_nil])
      · exact fun trail e htold => htold
  | register id handle => exact hquiet trivial (register_tells id handle)
  | arrange scene resources catalog =>
      exact hquiet trivial (.moves rfl (moves_rests (fun _ => Iff.rfl) rfl rfl) (conveys_rests h))
  | announce => exact hquiet trivial (announce_tells h)
  | collect => exact (hdeed.resolve_left nofun).elim

-- What every deed keeps holds throughout, and the chapters are such as the deeds make them.
theorem chronicle_of_steps {holds : Host → Prop} {proper : Chapter → Prop} {deeds : List Deed} (hh : holds h)
    (hstep : ∀ deed ∈ deeds, ∀ s, holds s →
      ∃ trail r next, Goes (actionOf deed) s trail r next ∧ holds next ∧ proper ⟨s, deed, trail⟩) :
    ∃ chapters, Chronicle h chapters (h.after deeds) ∧ chapters.map (·.deed) = deeds ∧
      ∀ c ∈ chapters, proper c := by
  induction deeds generalizing h with
  | nil => exact ⟨[], rfl, rfl, fun _ hc => absurd hc List.not_mem_nil⟩
  | cons deed deeds ih =>
      obtain ⟨hdeed, hrest⟩ := List.forall_mem_cons.1 hstep
      obtain ⟨trail, r, k, hgoes, hk, hproper⟩ := hdeed h hh
      obtain rfl : h.perform deed = k := by rw [perform_eq, hgoes.value]
      obtain ⟨chapters, hchronicle, hmap, hall⟩ := ih hk hrest
      exact ⟨⟨h, deed, trail⟩ :: chapters, ⟨rfl, r, _, hgoes, hchronicle⟩, congrArg (deed :: ·) hmap,
        List.forall_mem_cons.2 ⟨hproper, hall⟩⟩

theorem chronicle (hh : h.Ready) {deeds : List Deed}
    (hdeeds : ∀ deed ∈ deeds, (∃ op, deed = .apply op) ∨ deed.IsOwn) :
    ∃ chapters, Chronicle h chapters (h.after deeds) ∧ chapters.map (·.deed) = deeds ∧
      ∀ c ∈ chapters, c.Proper := by
  refine chronicle_of_steps hh fun deed hmem s hs => ?_
  obtain ⟨trail, r, next, hgoes, hproper⟩ := perform_tells hs (hdeeds deed hmem)
  refine ⟨trail, r, next, hgoes, ?_, hproper⟩
  rw [show next = s.perform deed by rw [perform_eq, hgoes.value]]
  exact perform_ready hs deed

end Chapters

section Runs

inductive Turn where
  | receive (raw : String)
  | act (deed : Deed) (own : deed.IsOwn)

def play (h : Host) : Turn → Host
  | .receive raw => (receive raw h).value.2
  | .act deed _ => h.perform deed

def Turn.deeds : Turn → List Deed
  | .receive raw => Session.deedsOf raw
  | .act deed _ => [deed]

theorem play_eq (h : Host) (turn : Turn) : h.play turn = h.after turn.deeds := by
  cases turn with
  | receive raw => exact Session.receive_value raw h
  | act deed own => rfl

theorem plays_eq (h : Host) (turns : List Turn) : turns.foldl play h = h.after (turns.flatMap Turn.deeds) := by
  induction turns generalizing h with
  | nil => rfl
  | cons turn turns ih =>
      rw [List.foldl_cons, ih, play_eq, List.flatMap_cons, after_append]

theorem turn_deeds (turn : Turn) : ∀ deed ∈ turn.deeds, (∃ op, deed = .apply op) ∨ deed.IsOwn := by
  cases turn with
  | act deed own => exact List.forall_mem_singleton.2 (.inr own)
  | receive raw =>
      intro deed hdeed
      rcases Session.deedsOf_mem hdeed with ⟨-, -, op, -, rfl⟩ | rfl
      · exact .inl ⟨op, rfl⟩
      · exact .inr trivial

-- What the caller can rely on along a trail that ends with a host.
structure Stream (trail : Entries) (k : Host) : Prop where
  -- What is told of an object as it comes and while it is there is told while it is registered.
  registered : ∀ {s m op id}, (s, m) ∈ trail → m.operation? = some op → op.id = some id →
    op.event = .created ∨ op.event.isCustom = true → s.Knows id
  -- After its end nothing is told of an object, answers apart, until it is registered again.
  silent : ∀ {before middle after s s' m m' gone op id},
    trail = before ++ (s, m) :: (middle ++ (s', m') :: after) → m.operation? = some gone →
    gone.event = .destroyed → gone.id = some id → (∀ entry ∈ middle, entry.2 ≠ .registers id) →
    m'.operation? = some op → op.id = some id → op.event = .callback
  -- A tween runs for a registered object that was not forgotten since it was started,
  bound : ∀ {before after s m}, trail = before ++ (s, m) :: after →
    ∀ t ∈ s.animator, s.Knows t.objectId ∧ Since before t
  bound_last : ∀ t ∈ k.animator, k.Knows t.objectId ∧ Since trail t
  -- and what a frame writes is written by the tweens that run when it begins.
  written : ∀ {s dt}, (s, .advances dt) ∈ trail →
    Animator.Written s.animator s.world (s.animator.advance s.world dt).value.world

-- Answers apart, what is told of an object is told while it is registered, and of its end only by what
-- forgets it.
theorem Orderly.told {s next : Host} {m : Moment} {op : Operation} {id : String} (hs : Orderly s m)
    (hmoves : Moves s next m) (hop : m.operation? = some op) (hid : op.id = some id) :
    op.event = .callback ∨ s.Knows id ∧
      (op.event = .created ∨ op.event.isCustom = true ∨ ∃ data, m = .forgets id data) := by
  cases m with
  | queues other =>
      cases hop
      rcases hs id hid with hcallback | ⟨hcreated | hcustom, hknown⟩
      · exact .inl hcallback
      · exact .inr ⟨hknown, .inl hcreated⟩
      · exact .inr ⟨hknown, .inr (.inl hcustom)⟩
  | forgets other data =>
      cases hop
      cases hid
      exact .inr ⟨hmoves.1, .inr (.inr ⟨data, rfl⟩)⟩
  | _ => cases hop

section Stream

variable {h k : Host} {trail : Entries}

theorem registered_of_orderly (ht : Trail h trail k)
    (horderly : ∀ entry ∈ trail, Orderly entry.1 entry.2) {s : Host} {m : Moment} {op : Operation}
    {id : String} (hmem : (s, m) ∈ trail) (hop : m.operation? = some op) (hid : op.id = some id)
    (hevent : op.event = .created ∨ op.event.isCustom = true) : s.Knows id := by
  obtain ⟨before, after, heq⟩ := List.append_of_mem hmem
  obtain ⟨-, next, hmoves, -⟩ := (heq ▸ ht).split
  rcases (horderly _ hmem).told hmoves hop hid with hcallback | ⟨hknown, -⟩
  · rw [hcallback] at hevent
    rcases hevent with hevent | hevent <;> cases hevent
  · exact hknown

theorem silent_of_orderly {before middle after : Entries} {s s' : Host} {m m' : Moment}
    {gone op : Operation} {id : String}
    (ht : Trail h (before ++ (s, m) :: (middle ++ (s', m') :: after)) k)
    (hs : Orderly s m) (hs' : Orderly s' m') (hgone : m.operation? = some gone)
    (hevent : gone.event = .destroyed) (hgoneId : gone.id = some id)
    (hunregistered : ∀ entry ∈ middle, entry.2 ≠ .registers id)
    (hop : m'.operation? = some op) (hid : op.id = some id) : op.event = .callback := by
  obtain ⟨-, next, hmoves, hrest⟩ := ht.split
  obtain ⟨-, last, hmoves', -⟩ := hrest.split
  have hforgets : ∃ data, m = .forgets id data := by
    rcases hs.told hmoves hgone hgoneId with hother | ⟨-, hother | hother | hforgets⟩
    · rw [hevent] at hother
      cases hother
    · rw [hevent] at hother
      cases hother
    · rw [hevent] at hother
      cases hother
    · exact hforgets
  obtain ⟨data, rfl⟩ := hforgets
  have hlast : ¬ s'.Knows id := ht.forgotten hunregistered
  rcases hs'.told hmoves' hop hid with hcallback | ⟨hknown, -⟩
  · exact hcallback
  · exact absurd hknown hlast

theorem bound_of_trail (ht : Trail h trail k) (hnone : h.animator = []) :
    ∀ t ∈ k.animator, k.Knows t.objectId ∧ Since trail t := by
  intro t hmem
  have hstart : h.Bound := by
    intro u hu
    rw [hnone] at hu
    cases hu
  refine ⟨ht.bound hstart t hmem, (ht.tween hmem).resolve_left ?_⟩
  rintro ⟨u, hu, -⟩
  rw [hnone] at hu
  cases hu

-- Along an orderly trail from a host without tweens, all of this holds.
theorem stream_of_orderly (ht : Trail h trail k) (hnone : h.animator = [])
    (horderly : ∀ entry ∈ trail, Orderly entry.1 entry.2) : Stream trail k where
  registered := registered_of_orderly ht horderly
  silent {before middle after s s' m m' gone op id} heq := by
    subst heq
    exact silent_of_orderly ht (horderly (s, m) (by simp)) (horderly (s', m') (by simp))
  bound heq := bound_of_trail (heq ▸ ht).split.1 hnone
  bound_last := bound_of_trail ht hnone
  written _ := (Animator.advance_spec _ _ _).world

end Stream

-- Whatever arrives, and whatever the program around the host does, a host without tweens goes through
-- chapters, one for each deed, in which operations are queued as the lives of the objects have it.
theorem lifecycle_stream (settings : HostSettings) (catalog : Catalog) (transport : Transport)
    (turns : List Turn) :
    let h := (Host.start settings catalog transport).value
    let k := turns.foldl play h
    ∃ chapters, Chronicle h chapters k ∧ chapters.map (·.deed) = turns.flatMap Turn.deeds ∧
      k.outbox.texts = h.outbox.texts ++ (queued (trailOf chapters)).map Operation.text ∧
      Stream (trailOf chapters) k ∧
      (∀ c ∈ chapters, Notified c) ∧
      ∀ c ∈ chapters, ∀ dt, c.deed = .tick dt → Frames c.host c.trail := by
  intro h k
  have hnone : h.animator = [] := by
    change (Host.start settings catalog transport).value.animator = []
    unfold Host.start
    dsimp only
    split
    · exact congrArg Host.animator (announce_value _)
    · rfl
  have hdeeds : ∀ deed ∈ turns.flatMap Turn.deeds, (∃ op, deed = .apply op) ∨ deed.IsOwn := by
    intro deed hdeed
    obtain ⟨turn, -, hmem⟩ := List.mem_flatMap.1 hdeed
    exact turn_deeds turn deed hmem
  obtain ⟨chapters, hchronicle, hmap, hproper⟩ :=
    chronicle (Reachable.start settings catalog transport).ready hdeeds
  rw [← plays_eq] at hchronicle
  refine ⟨chapters, hchronicle, hmap, hchronicle.trail.texts, stream_of_orderly hchronicle.trail hnone ?_,
    fun c hc => (hproper c hc).notified, fun c hc => (hproper c hc).frames⟩
  intro entry hentry
  obtain ⟨c, hc, hmem⟩ := List.mem_flatMap.1 hentry
  exact (hproper c hc).orderly entry hmem

end Runs

end Host

end SceneLink
