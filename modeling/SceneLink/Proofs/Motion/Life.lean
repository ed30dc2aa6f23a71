import SceneLink.Proofs.Motion.Turn

namespace SceneLink.Tween

structure Fresh (t : Tween) : Prop where
  source : t.source = none
  elapsed : t.elapsed = 0

-- The turns of a tween, one after another from its start, and what has become of it.
inductive History (born : Tween) : List Turn → Fate → Prop
  | started : History born [] (.running born)
  | turned {turns : List Turn} {t : Tween} (h : History born turns (.running t)) (w : World) (dt : Double) :
      History born (turns ++ [⟨t, w, dt⟩]) (Turn.run ⟨t, w, dt⟩).2
  | cancelled {turns : List Turn} {t : Tween} (h : History born turns (.running t)) : History born turns .cancelled

namespace Turn

def passed (turns : List Turn) : Double := turns.foldl (fun elapsed turn => elapsed + turn.dt) 0

theorem passed_concat (turns : List Turn) (turn : Turn) : passed (turns ++ [turn]) = passed turns + turn.dt :=
  List.foldl_concat ..

-- What one turn has started from, the other starts from in any world.
def Settles (turn next : Turn) : Prop :=
  turn.waits = false → ∃ source, turn.StartsFrom source ∧ ∀ w root, next.moved.start w root = .ok source

end Turn

namespace History

variable {born t : Tween} {turns : List Turn} {fate : Fate} {done : Completed}

structure Pending (born : Tween) (turns : List Turn) (t : Tween) : Prop where
  continues : born.Continues t
  elapsed : t.elapsed = Turn.passed turns
  settled : ∀ turn ∈ turns, turn.waits = false → ∃ source, turn.StartsFrom source ∧ t.source = some source

-- What holds of the turns of a tween: its time is the time that has passed, up to the delay it
-- neither looks at the world nor changes it, all that it writes is written at its path, and the
-- value that it starts from is looked up once.
structure Orderly (born : Tween) (turns : List Turn) : Prop where
  continues : ∀ turn ∈ turns, born.Continues turn.tween
  elapsed : ∀ earlier turn later, turns = earlier ++ turn :: later →
    turn.moved.elapsed = Turn.passed (earlier ++ [turn])
  waits : ∀ turn ∈ turns, turn.moved.elapsed.lt born.delay = true →
    ∀ w, Turn.run { turn with world := w } = (w, .running turn.moved)
  writes : ∀ turn ∈ turns, turn.run.1 = turn.world ∨ ∃ handle value, turn.Due handle value ∧
    turn.run.1 = (turn.world.set (.object handle) born.path (.value value)).world
  reads : turns.countP Turn.reads ≤ 1
  settles : turns.Pairwise Turn.Settles

theorem Pending.turn (h : Pending born turns t) {w v : World} {dt : Double} {u : Tween}
    (hdoes : Turn.Does ⟨t, w, dt⟩ v (.running u)) : Pending born (turns ++ [⟨t, w, dt⟩]) u := by
  have helapsed : t.elapsed + dt = Turn.passed (turns ++ [⟨t, w, dt⟩]) := by
    rw [Turn.passed_concat, h.elapsed]
  cases hdoes with
  | waits hwaits =>
      refine ⟨h.continues.trans ⟨t.source, t.elapsed + dt, rfl⟩, helapsed, fun turn hturn hdue => ?_⟩
      rcases List.mem_append.1 hturn with hturn | hturn
      · exact h.settled turn hturn hdue
      · rw [List.mem_singleton.1 hturn, hwaits] at hdue
        cases hdue
  | @goesOn handle source value hdue hstarts hresult =>
      obtain ⟨found, -, hstart⟩ := id hstarts
      refine ⟨h.continues.trans ⟨some source, t.elapsed + dt, rfl⟩, helapsed, fun turn hturn hnow => ?_⟩
      rcases List.mem_append.1 hturn with hturn | hturn
      · obtain ⟨held, hsettled, hheld⟩ := h.settled turn hturn hnow
        have hsame : held = source :=
          Except.ok.inj ((start_of_source hheld w (.object found)).symm.trans hstart)
        exact ⟨held, hsettled, congrArg some hsame.symm⟩
      · rw [List.mem_singleton.1 hturn]
        exact ⟨source, hstarts, rfl⟩

theorem Pending.reads (h : Pending born turns t) {w : World} {dt : Double}
    (hreads : Turn.reads ⟨t, w, dt⟩ = true) : turns.countP Turn.reads = 0 := by
  have hsource : t.source = none := by
    have hnone := (Bool.and_eq_true_iff.1 hreads).2
    exact Option.isNone_iff_eq_none.1 hnone
  rw [List.countP_eq_zero]
  intro turn hturn hread
  have hdue : turn.waits = false := by
    have hnot := (Bool.and_eq_true_iff.1 hread).1
    simpa using hnot
  obtain ⟨source, -, hheld⟩ := h.settled turn hturn hdue
  rw [hsource] at hheld
  cases hheld

theorem Orderly.turn (horderly : Orderly born turns) (h : Pending born turns t) (w : World) (dt : Double) :
    Orderly born (turns ++ [⟨t, w, dt⟩]) := by
  have heach {P : Turn → Prop} (hturns : ∀ turn ∈ turns, P turn) (hlast : P ⟨t, w, dt⟩) :
      ∀ turn ∈ turns ++ [⟨t, w, dt⟩], P turn := by
    intro turn hturn
    rcases List.mem_append.1 hturn with hturn | hturn
    · exact hturns turn hturn
    · exact List.mem_singleton.1 hturn ▸ hlast
  refine ⟨heach horderly.continues h.continues, fun earlier turn later heq => ?_,
    heach horderly.waits ?_, heach horderly.writes ?_, ?_, ?_⟩
  · rcases List.eq_nil_or_concat later with rfl | ⟨later, last, rfl⟩
    · obtain ⟨rfl, rfl⟩ := List.append_inj' heq rfl |>.imp id fun h => (List.cons.inj h).1
      rw [Turn.passed_concat, ← h.elapsed]
      rfl
    · have hinit : turns ++ [⟨t, w, dt⟩] = (earlier ++ turn :: later) ++ [last] := by
        rw [heq, List.concat_eq_append, List.append_assoc, List.cons_append]
      exact horderly.elapsed earlier turn later (List.append_inj' hinit rfl).1
  · obtain ⟨held, elapsed, rfl⟩ := h.continues
    exact fun hwaits v => Turn.run_waiting hwaits
  · obtain ⟨held, elapsed, rfl⟩ := h.continues
    exact Turn.writes _
  · rw [List.countP_append, List.countP_singleton]
    by_cases hreads : Turn.reads ⟨t, w, dt⟩ = true
    · rw [if_pos hreads, h.reads hreads]
    · rw [if_neg hreads]
      exact horderly.reads
  · refine List.pairwise_append.2
      ⟨horderly.settles, List.pairwise_singleton _ _, fun turn hturn next hnext hdue => ?_⟩
    obtain ⟨source, hstarts, hheld⟩ := h.settled turn hturn hdue
    rw [List.mem_singleton.1 hnext]
    exact ⟨source, hstarts, start_of_source hheld⟩

theorem orderly (hfresh : born.Fresh) (h : History born turns fate) :
    Orderly born turns ∧ ∀ t, fate = .running t → Pending born turns t := by
  induction h with
  | started =>
      refine ⟨⟨(fun _ h => nomatch h), fun earlier turn later heq => ?_, (fun _ h => nomatch h),
        (fun _ h => nomatch h), Nat.zero_le _, .nil⟩, ?_⟩
      · simp at heq
      · rintro t ⟨⟩
        exact ⟨.refl born, hfresh.elapsed, fun _ h => nomatch h⟩
  | @turned turns t h w dt ih =>
      obtain ⟨horderly, hpending⟩ := ih
      have hrunning : Pending born turns t := hpending t rfl
      refine ⟨horderly.turn hrunning w dt, fun u hfate => ?_⟩
      have hdoes := Turn.does ⟨t, w, dt⟩
      rw [hfate] at hdoes
      exact hrunning.turn hdoes
  | cancelled h ih => exact ⟨ih.1, fun _ h => nomatch h⟩

-- The last turn of a tween that has landed: it has written the target, and nothing has kept it from
-- that.
structure Landing (born : Tween) (turns : List Turn) (last : Turn) (handle : Handle) : Prop where
  ends : ∃ earlier, turns = earlier ++ [last]
  found : last.world.registry.get? born.objectId = some handle
  written : last.run.1 = (last.world.set (.object handle) born.path (.value born.target)).world
  result : (last.world.set (.object handle) born.path (.value born.target)).result = .ok ()

theorem landing (hfresh : born.Fresh) (h : History born turns (.completed done)) :
    done = born.landed ∧ ∃ last handle, Landing born turns last handle := by
  generalize hfate : Fate.completed done = fate at h
  cases h with
  | started | cancelled _ => cases hfate
  | @turned turns t h w dt =>
      obtain ⟨source, elapsed, rfl⟩ := ((orderly hfresh h).2 t rfl).continues
      have hdoes := Turn.does ⟨{ born with source, elapsed }, w, dt⟩
      rw [← hfate] at hdoes
      generalize hworld : (Turn.run ⟨{ born with source, elapsed }, w, dt⟩).1 = v at hdoes
      cases hdoes with
      | @lands handle hdue hresult => exact ⟨rfl, _, handle, ⟨turns, rfl⟩, hdue.found, hworld, hresult⟩

-- Without conditional steps nothing is skipped.
theorem Landing.writes {last : Turn} {handle : Handle} (h : Landing born turns last handle)
    (hstrict : ∀ step ∈ born.path.steps, step.conditional = false) :
    last.world.Writes (.object handle) born.path (.value born.target) := by
  rcases World.writes_or_skips h.result with hwrites | hskips
  · exact hwrites
  · have hne : born.path.steps ≠ [] := fun hnil => by
      have hresult := h.result
      rw [World.set_nil hnil] at hresult
      cases hresult
    obtain ⟨step, hstep, hconditional⟩ := hskips.conditional hne
    rw [hstrict step hstep] at hconditional
    cases hconditional

end History

theorem fresh_ofAnimation (objectId : String) (animation : Animation) (defaultEase : Ease) :
    (ofAnimation objectId animation defaultEase).Fresh := ⟨rfl, rfl⟩

def warning (t : Tween) (cause : AccessError) : Log.Line :=
  ⟨.warn, s!"Dropping animation of {t.path.text} on {t.objectId}: {cause.message}"⟩

theorem Continues.warning {t u : Tween} (h : t.Continues u) (cause : AccessError) :
    u.warning cause = t.warning cause := by
  obtain ⟨source, elapsed, rfl⟩ := h
  rfl

structure Life where
  born : Tween
  fresh : born.Fresh
  turns : List Turn
  fate : Fate
  history : History born turns fate

namespace Life

def running? (life : Life) : Option Tween :=
  match life.fate with
  | .running t => some t
  | _ => none

def completed? (life : Life) : Option Completed :=
  match life.fate with
  | .completed done => some done
  | _ => none

def warning? (life : Life) : Option Log.Line :=
  match life.fate with
  | .dropped cause => some (life.born.warning cause)
  | _ => none

def cancelled? (life : Life) : Option String :=
  match life.fate with
  | .cancelled => some life.born.objectId
  | _ => none

def start (objectId : String) (animation : Animation) (defaultEase : Ease) : Life where
  born := ofAnimation objectId animation defaultEase
  fresh := fresh_ofAnimation objectId animation defaultEase
  turns := []
  fate := .running (ofAnimation objectId animation defaultEase)
  history := .started

def cancel (objectId : String) (life : Life) : Life :=
  match h : life.fate with
  | .running t =>
    if t.objectId = objectId then { life with fate := .cancelled, history := .cancelled (h ▸ life.history) }
    else life
  | _ => life

-- The part of a life in a frame, with the world that is left: a turn of its tween, if it still
-- runs.
def turn (life : Life) (w : World) (dt : Double) : World × Life :=
  match h : life.fate with
  | .running t =>
    ((Turn.run ⟨t, w, dt⟩).1, { life with
      turns := life.turns ++ [⟨t, w, dt⟩]
      fate := (Turn.run ⟨t, w, dt⟩).2
      history := .turned (h ▸ life.history) w dt })
  | _ => (w, life)

-- The same life at a later time: it may have gone on or ended, but a life that has ended is what it
-- was.
structure Becomes (life later : Life) : Prop where
  born : later.born = life.born
  turns : life.turns <+: later.turns
  ended : life.running? = none → later = life

variable {life later last : Life} {t : Tween}

theorem running?_eq_some : life.running? = some t ↔ life.fate = .running t := by
  unfold running?
  cases life.fate <;> simp

theorem completed?_eq_some {done : Completed} : life.completed? = some done ↔ life.fate = .completed done := by
  unfold completed?
  cases life.fate <;> simp

theorem of_running (h : life.running? = some t) :
    life.completed? = none ∧ life.warning? = none ∧ life.cancelled? = none := by
  simp [completed?, warning?, cancelled?, running?_eq_some.1 h]

theorem of_completed {done : Completed} (h : life.fate = .completed done) : life.running? = none ∧
    life.completed? = some done ∧ life.warning? = none ∧ life.cancelled? = none := by
  simp [running?, completed?, warning?, cancelled?, h]

theorem of_dropped {cause : AccessError} (h : life.fate = .dropped cause) : life.running? = none ∧
    life.completed? = none ∧ life.warning? = some (life.born.warning cause) ∧ life.cancelled? = none := by
  simp [running?, completed?, warning?, cancelled?, h]

theorem of_cancelled (h : life.fate = .cancelled) : life.running? = none ∧
    life.completed? = none ∧ life.warning? = none ∧ life.cancelled? = some life.born.objectId := by
  simp [running?, completed?, warning?, cancelled?, h]

theorem turn_idle (h : life.running? = none) (w : World) (dt : Double) : life.turn w dt = (w, life) := by
  unfold turn
  split
  · next t ht =>
    rw [running?_eq_some.2 ht] at h
    cases h
  · rfl

structure Turned (life : Life) (turn : Turn) (later : Life) : Prop where
  born : later.born = life.born
  turns : later.turns = life.turns ++ [turn]
  fate : later.fate = turn.run.2

theorem turn_running (h : life.running? = some t) (w : World) (dt : Double) :
    (life.turn w dt).1 = (Turn.run ⟨t, w, dt⟩).1 ∧ life.Turned ⟨t, w, dt⟩ (life.turn w dt).2 := by
  have hfate := running?_eq_some.1 h
  unfold turn
  split
  · next u hu =>
    cases hfate.symm.trans hu
    exact ⟨rfl, rfl, rfl, rfl⟩
  · next hidle => exact absurd hfate (hidle t)

theorem continues (h : life.running? = some t) : life.born.Continues t :=
  ((life.history.orderly life.fresh).2 t (running?_eq_some.1 h)).continues

theorem Becomes.refl (life : Life) : life.Becomes life := ⟨rfl, List.prefix_rfl, fun _ => rfl⟩

theorem Becomes.trans (h : life.Becomes later) (h' : later.Becomes last) : life.Becomes last where
  born := h'.born.trans h.born
  turns := h.turns.trans h'.turns
  ended := fun hended => by
    have hsame : later = life := h.ended hended
    rw [hsame] at h'
    exact h'.ended hended

theorem becomes_turn (life : Life) (w : World) (dt : Double) : life.Becomes (life.turn w dt).2 := by
  cases hrunning : life.running? with
  | none =>
      rw [turn_idle hrunning]
      exact .refl life
  | some t =>
      have hturned := (turn_running hrunning w dt).2
      refine ⟨hturned.born, hturned.turns ▸ List.prefix_append _ _, fun hended => ?_⟩
      rw [hrunning] at hended
      cases hended

theorem cancel_idle (h : life.running? = none) (objectId : String) : life.cancel objectId = life := by
  unfold cancel
  split
  · next t ht =>
    rw [running?_eq_some.2 ht] at h
    cases h
  · rfl

theorem cancel_running (h : life.running? = some t) (objectId : String) :
    if t.objectId = objectId then (life.cancel objectId).born = life.born ∧
      (life.cancel objectId).turns = life.turns ∧ (life.cancel objectId).fate = .cancelled
    else life.cancel objectId = life := by
  have hfate := running?_eq_some.1 h
  unfold cancel
  split
  · next hid =>
    split
    · next u hu =>
      cases hfate.symm.trans hu
      rw [if_pos hid]
      exact ⟨rfl, rfl, rfl⟩
    · next hidle => exact absurd hfate (hidle t)
  · next hid =>
    split
    · next u hu =>
      cases hfate.symm.trans hu
      rw [if_neg hid]
    · rfl

theorem becomes_cancel (life : Life) (objectId : String) : life.Becomes (life.cancel objectId) := by
  cases hrunning : life.running? with
  | none =>
      rw [cancel_idle hrunning]
      exact .refl life
  | some t =>
      have hcancel := cancel_running hrunning objectId
      split at hcancel
      · refine ⟨hcancel.1, hcancel.2.1 ▸ List.prefix_rfl, fun hended => ?_⟩
        rw [hrunning] at hended
        cases hended
      · rw [hcancel]
        exact .refl life

-- What holds of a whole life. If it has landed, what is told of it is its target, and the last
-- thing that it has written; without conditional steps nothing has kept it from that.
structure Sound (life : Life) : Prop where
  orderly : History.Orderly life.born life.turns
  lands : ∀ done, life.fate = .completed done → done = life.born.landed ∧
    ∃ last handle, History.Landing life.born life.turns last handle ∧
      ((∀ step ∈ life.born.path.steps, step.conditional = false) →
        last.world.Writes (.object handle) life.born.path (.value life.born.target))

theorem sound (life : Life) : life.Sound := by
  refine ⟨(life.history.orderly life.fresh).1, fun done hfate => ?_⟩
  have hhistory := life.history
  rw [hfate] at hhistory
  obtain ⟨hdone, last, handle, hlanding⟩ := hhistory.landing life.fresh
  exact ⟨hdone, last, handle, hlanding, hlanding.writes⟩

end Life

end SceneLink.Tween
