import Mathlib.Data.List.Induction
import SceneLink.Proofs.Motion.Life

namespace SceneLink.Animator

open Tween

-- A call of an animator. Each frame comes with a world of its own, whatever has become of it since
-- the last.
inductive Call where
  | start (objectId : String) (animation : Animation) (defaultEase : Ease)
  | cancel (objectId : String)
  | advance (w : World) (dt : Double)

structure Report where
  cancelled : Nat := 0
  completed : List Completed := []
  warnings : List Log.Line := []

def call (animator : Animator) : Call → Animator
  | .start objectId animation defaultEase => animator.start objectId animation defaultEase
  | .cancel objectId => (animator.cancel objectId).2
  | .advance w dt => (animator.advance w dt).value.running

def report (animator : Animator) : Call → Report
  | .start .. => {}
  | .cancel objectId => { cancelled := (animator.cancel objectId).1 }
  | .advance w dt =>
    let after := animator.advance w dt
    { completed := after.value.completed, warnings := after.output }

def run (calls : List Call) : Animator := calls.foldl call []

def frame : List Life → World → Double → List Life
  | [], _, _ => []
  | life :: lives, w, dt => (life.turn w dt).2 :: frame lives (life.turn w dt).1 dt

def continued (lives : List Life) : Call → List Life
  | .start objectId animation defaultEase => lives ++ [Life.start objectId animation defaultEase]
  | .cancel objectId => lives.map (Life.cancel objectId)
  | .advance w dt => frame lives w dt

def account (calls : List Call) : List Life := calls.foldl continued []

def ended : List Life → List Life → List Life
  | life :: lives, later :: laters =>
    if life.running?.isSome && later.running?.isNone then later :: ended lives laters else ended lives laters
  | _, _ => []

def taken : List Life → List Life → List Turn
  | life :: lives, later :: laters => later.turns.drop life.turns.length ++ taken lives laters
  | _, _ => []

def Chain : World → List Turn → World → Prop
  | w, [], last => w = last
  | w, turn :: turns, last => turn.world = w ∧ Chain turn.run.1 turns last

section Frames

-- A frame is a turn of the first tween, and a frame of the others in the world that it leaves.
theorem advance_cons (t : Tween) (rest : Animator) (w : World) (dt : Double) :
    let turn : Turn := ⟨t, w, dt⟩
    let after := Animator.advance rest turn.run.1 dt
    Animator.advance (t :: rest) w dt = match turn.run.2 with
      | .running u => ⟨{ after.value with running := u :: after.value.running }, after.output⟩
      | .completed done => ⟨{ after.value with completed := done :: after.value.completed }, after.output⟩
      | .dropped cause => ⟨after.value, t.warning cause :: after.output⟩
      | .cancelled => after := by
  intro turn after
  have hafter : after = Animator.advance rest turn.run.1 dt := rfl
  have hmoved : turn.moved = { t with elapsed := t.elapsed + dt } := rfl
  rw [hafter, Animator.advance, ← hmoved]
  unfold Turn.run
  by_cases hdue : turn.waits = true
  · have hwaits : turn.moved.elapsed.lt turn.moved.delay = true := hdue
    rw [if_pos hdue]
    dsimp only
    rw [if_pos hwaits]
    exact Logged.bind_pure_eq ..
  · have hwaits : ¬turn.moved.elapsed.lt turn.moved.delay = true := hdue
    rw [if_neg hdue]
    dsimp only
    rw [if_neg hwaits]
    rcases turn.moved.step turn.world with ⟨v, result⟩
    cases result with
    | error e => rfl
    | ok stepped =>
        cases stepped with
        | running u => exact Logged.bind_pure_eq ..
        | completed done => exact Logged.bind_pure_eq ..

-- What a frame does to an account: what it returns and logs are the ends of lives, each tween that
-- runs takes one turn, and the world is what these turns make of it.
structure Framed (lives laters : List Life) (w : World) (dt : Double) (after : Logged Log.Line Advanced) :
    Prop where
  running : laters.filterMap Life.running? = after.value.running
  completed : after.value.completed = (ended lives laters).filterMap Life.completed?
  warnings : after.output = (ended lives laters).filterMap Life.warning?
  cancelled : (ended lives laters).filterMap Life.cancelled? = []
  tweens : (taken lives laters).map Turn.tween = lives.filterMap Life.running?
  time : ∀ turn ∈ taken lives laters, turn.dt = dt
  world : Chain w (taken lives laters) after.value.world

variable {life later : Life} {lives laters : List Life} {w : World} {dt : Double} {t : Tween}

theorem ended_of_runs {u : Tween} (life : Life) (hruns : later.running? = some u) :
    ended (life :: lives) (later :: laters) = ended lives laters := by
  rw [ended, hruns, Option.isNone_some, Bool.and_false]
  rfl

theorem ended_of_stops (hrunning : life.running? = some t) (hstops : later.running? = none) :
    ended (life :: lives) (later :: laters) = later :: ended lives laters := by
  rw [ended, hrunning, hstops]
  rfl

private theorem ended_of_same (life : Life) (lives laters : List Life) :
    ended (life :: lives) (life :: laters) = ended lives laters := by
  rw [ended]
  cases life.running? <;> rfl

private theorem taken_of_same {life later : Life} (h : later.turns = life.turns) (lives laters : List Life) :
    taken (life :: lives) (later :: laters) = taken lives laters := by
  rw [taken, h, List.drop_length, List.nil_append]

theorem Framed.idle {after : Logged Log.Line Advanced} (h : Framed lives laters w dt after)
    (hidle : life.running? = none) : Framed (life :: lives) (life :: laters) w dt after := by
  have hended := ended_of_same life lives laters
  have htaken := taken_of_same (Eq.refl life.turns) lives laters
  constructor
  · rw [List.filterMap_cons_none hidle, h.running]
  · rw [hended, h.completed]
  · rw [hended, h.warnings]
  · rw [hended, h.cancelled]
  · rw [htaken, List.filterMap_cons_none hidle, h.tweens]
  · rw [htaken]
    exact h.time
  · rw [htaken]
    exact h.world

-- The tween of the first life takes its turn, and what becomes of it is what is added to the rest of the frame.
theorem Framed.turn (hrunning : life.running? = some t) (hturned : life.Turned ⟨t, w, dt⟩ later) {rest : Animator}
    (h : Framed lives laters (Turn.run ⟨t, w, dt⟩).1 dt (Animator.advance rest (Turn.run ⟨t, w, dt⟩).1 dt)) :
    Framed (life :: lives) (later :: laters) w dt (Animator.advance (t :: rest) w dt) := by
  have htaken : taken (life :: lives) (later :: laters) = ⟨t, w, dt⟩ :: taken lives laters := by
    rw [taken, hturned.turns, List.drop_left]
    rfl
  have htweens : (taken (life :: lives) (later :: laters)).map Turn.tween =
      (life :: lives).filterMap Life.running? := by
    rw [htaken, List.map_cons, h.tweens, List.filterMap_cons_some hrunning]
  have htime : ∀ turn ∈ taken (life :: lives) (later :: laters), turn.dt = dt := by
    rw [htaken]
    exact List.forall_mem_cons.2 ⟨rfl, h.time⟩
  have hworld : Chain w (taken (life :: lives) (later :: laters))
      (Animator.advance rest (Turn.run ⟨t, w, dt⟩).1 dt).value.world := by
    rw [htaken]
    exact ⟨rfl, h.world⟩
  rw [advance_cons]
  cases hrun : (Turn.run ⟨t, w, dt⟩).2 with
  | running u =>
      have hruns : later.running? = some u := Life.running?_eq_some.2 (hturned.fate.trans hrun)
      have hended : ended (life :: lives) (later :: laters) = ended lives laters := ended_of_runs life hruns
      refine ⟨?_, hended ▸ h.completed, hended ▸ h.warnings, hended ▸ h.cancelled, htweens, htime, hworld⟩
      rw [List.filterMap_cons_some hruns, h.running]
  | completed done =>
      obtain ⟨hstops, hcompleted, hwarning, hcancelled⟩ := Life.of_completed (hturned.fate.trans hrun)
      refine ⟨?_, ?_, ?_, ?_, htweens, htime, hworld⟩
      · rw [List.filterMap_cons_none hstops, h.running]
      · rw [ended_of_stops hrunning hstops, List.filterMap_cons_some hcompleted, ← h.completed]
      · rw [ended_of_stops hrunning hstops, List.filterMap_cons_none hwarning, ← h.warnings]
      · rw [ended_of_stops hrunning hstops, List.filterMap_cons_none hcancelled, h.cancelled]
  | dropped cause =>
      obtain ⟨hstops, hcompleted, hwarning, hcancelled⟩ := Life.of_dropped (hturned.fate.trans hrun)
      have hline : later.born.warning cause = t.warning cause := by
        rw [hturned.born]
        exact ((Life.continues hrunning).warning cause).symm
      refine ⟨?_, ?_, ?_, ?_, htweens, htime, hworld⟩
      · rw [List.filterMap_cons_none hstops, h.running]
      · rw [ended_of_stops hrunning hstops, List.filterMap_cons_none hcompleted, ← h.completed]
      · rw [ended_of_stops hrunning hstops, List.filterMap_cons_some hwarning, ← h.warnings, hline]
      · rw [ended_of_stops hrunning hstops, List.filterMap_cons_none hcancelled, h.cancelled]
  | cancelled => exact absurd hrun (Turn.run_ne_cancelled _)

theorem framed (lives : List Life) (w : World) (dt : Double) :
    Framed lives (frame lives w dt) w dt (Animator.advance (lives.filterMap Life.running?) w dt) := by
  induction lives generalizing w with
  | nil => exact ⟨rfl, rfl, rfl, rfl, rfl, (fun _ h => nomatch h), rfl⟩
  | cons life lives ih =>
      rw [frame]
      cases hrunning : life.running? with
      | none =>
          rw [List.filterMap_cons_none hrunning, Life.turn_idle hrunning]
          exact (ih w).idle hrunning
      | some t =>
          obtain ⟨hworld, hturned⟩ := Life.turn_running hrunning w dt
          rw [List.filterMap_cons_some hrunning, hworld]
          exact .turn hrunning hturned (ih _)

end Frames

section Calls

variable {life later : Life} {lives laters : List Life} {t : Tween}

-- The turns of a frame are taken by the tweens that run, in order and in one world. No other call makes a turn.
def Taken (animator : Animator) (turns : List Turn) : Call → Prop
  | .advance w dt => turns.map Turn.tween = animator ∧ (∀ turn ∈ turns, turn.dt = dt) ∧
      Chain w turns (animator.advance w dt).value.world
  | _ => turns = []

structure Accounted (animator : Animator) (c : Call) (before after : List Life) : Prop where
  running : after.filterMap Life.running? = animator.call c
  completed : (animator.report c).completed = (ended before after).filterMap Life.completed?
  warnings : (animator.report c).warnings = (ended before after).filterMap Life.warning?
  cancelled : (animator.report c).cancelled = ((ended before after).filterMap Life.cancelled?).length
  turns : Taken animator (taken before after) c

private theorem ended_append (lives added : List Life) : ended lives (lives ++ added) = [] := by
  induction lives with
  | nil => cases added <;> rfl
  | cons life lives ih => rw [List.cons_append, ended_of_same, ih]

private theorem taken_append (lives added : List Life) : taken lives (lives ++ added) = [] := by
  induction lives with
  | nil => cases added <;> rfl
  | cons life lives ih => rw [List.cons_append, taken_of_same rfl, ih]

theorem accounted_start (lives : List Life) (objectId : String) (animation : Animation) (defaultEase : Ease) :
    let c := Call.start objectId animation defaultEase
    Accounted (lives.filterMap Life.running?) c lives (continued lives c) := by
  intro c
  have hended : ended lives (continued lives c) = [] := ended_append ..
  refine ⟨List.filterMap_append, ?_, ?_, ?_, taken_append ..⟩ <;> rw [hended] <;> rfl

structure Cut (lives laters : List Life) (objectId : String) : Prop where
  running : laters.filterMap Life.running? =
    (lives.filterMap Life.running?).filter fun t => t.objectId ≠ objectId
  completed : (ended lives laters).filterMap Life.completed? = []
  warnings : (ended lives laters).filterMap Life.warning? = []
  cancelled : ((ended lives laters).filterMap Life.cancelled?).length +
    (laters.filterMap Life.running?).length = (lives.filterMap Life.running?).length
  turns : taken lives laters = []

theorem Cut.keep {objectId : String} (h : Cut lives laters objectId)
    (hother : ∀ t, life.running? = some t → t.objectId ≠ objectId) :
    Cut (life :: lives) (life :: laters) objectId := by
  have hended := ended_of_same life lives laters
  refine ⟨?_, hended ▸ h.completed, hended ▸ h.warnings, ?_, ?_⟩
  · cases hrunning : life.running? with
    | none => rw [List.filterMap_cons_none hrunning, List.filterMap_cons_none hrunning, h.running]
    | some t =>
        rw [List.filterMap_cons_some hrunning, List.filterMap_cons_some hrunning,
          List.filter_cons_of_pos (by simpa using hother t hrunning), h.running]
  · rw [hended]
    cases hrunning : life.running? with
    | none => rw [List.filterMap_cons_none hrunning, List.filterMap_cons_none hrunning, h.cancelled]
    | some t =>
        rw [List.filterMap_cons_some hrunning, List.filterMap_cons_some hrunning, List.length_cons,
          List.length_cons, ← h.cancelled, Nat.add_assoc]
  · rw [taken_of_same rfl, h.turns]

theorem Cut.stop {objectId : String} (h : Cut lives laters objectId) (hrunning : life.running? = some t)
    (hid : t.objectId = objectId) (hturns : later.turns = life.turns) (hfate : later.fate = .cancelled) :
    Cut (life :: lives) (later :: laters) objectId := by
  obtain ⟨hstops, hcompleted, hwarning, hcancelled⟩ := Life.of_cancelled hfate
  have hended : ended (life :: lives) (later :: laters) = later :: ended lives laters :=
    ended_of_stops hrunning hstops
  constructor
  · rw [List.filterMap_cons_none hstops, List.filterMap_cons_some hrunning,
      List.filter_cons_of_neg (by simpa using hid), h.running]
  · rw [hended, List.filterMap_cons_none hcompleted, h.completed]
  · rw [hended, List.filterMap_cons_none hwarning, h.warnings]
  · rw [hended, List.filterMap_cons_some hcancelled, List.filterMap_cons_none hstops,
      List.filterMap_cons_some hrunning, List.length_cons, List.length_cons, ← h.cancelled, Nat.add_right_comm]
  · rw [taken_of_same hturns, h.turns]

theorem cut (lives : List Life) (objectId : String) : Cut lives (lives.map (Life.cancel objectId)) objectId := by
  induction lives with
  | nil => exact ⟨rfl, rfl, rfl, rfl, rfl⟩
  | cons life lives ih =>
      rw [List.map_cons]
      cases hrunning : life.running? with
      | none =>
          rw [Life.cancel_idle hrunning]
          exact ih.keep fun t ht => by rw [hrunning] at ht; cases ht
      | some t =>
          have hcancel := Life.cancel_running hrunning objectId
          split at hcancel
          · next hid => exact ih.stop hrunning hid hcancel.2.1 hcancel.2.2
          · next hid =>
            rw [hcancel]
            exact ih.keep fun u hu => Option.some.inj (hrunning.symm.trans hu) ▸ hid

theorem accounted_cancel (lives : List Life) (objectId : String) :
    Accounted (lives.filterMap Life.running?) (.cancel objectId) lives (continued lives (.cancel objectId)) := by
  have hcut : Cut lives (continued lives (.cancel objectId)) objectId := cut lives objectId
  refine ⟨hcut.running, hcut.completed.symm, hcut.warnings.symm, ?_, hcut.turns⟩
  have hcount := hcut.cancelled
  have hkept := hcut.running
  rw [hkept] at hcount
  exact (Nat.eq_sub_of_add_eq hcount).symm

theorem accounted_advance (lives : List Life) (w : World) (dt : Double) :
    Accounted (lives.filterMap Life.running?) (.advance w dt) lives (continued lives (.advance w dt)) := by
  have h := framed lives w dt
  exact ⟨h.running, h.completed, h.warnings, (congrArg List.length h.cancelled).symm, h.tweens, h.time, h.world⟩

theorem accounted (lives : List Life) (c : Call) :
    Accounted (lives.filterMap Life.running?) c lives (continued lives c) := by
  cases c with
  | start objectId animation defaultEase => exact accounted_start lives objectId animation defaultEase
  | cancel objectId => exact accounted_cancel lives objectId
  | advance w dt => exact accounted_advance lives w dt

end Calls

section Runs

theorem run_concat (calls : List Call) (c : Call) : run (calls ++ [c]) = (run calls).call c := List.foldl_concat ..

theorem account_concat (calls : List Call) (c : Call) : account (calls ++ [c]) = continued (account calls) c :=
  List.foldl_concat ..

theorem running_account (calls : List Call) : (account calls).filterMap Life.running? = run calls := by
  induction calls using List.reverseRecOn with
  | nil => rfl
  | append_singleton calls c ih => rw [account_concat, run_concat, ← ih, (accounted (account calls) c).running]

theorem becomes_frame (lives : List Life) (w : World) (dt : Double) :
    List.Forall₂ Life.Becomes lives (frame lives w dt) := by
  induction lives generalizing w with
  | nil => exact .nil
  | cons life lives ih => exact .cons (life.becomes_turn w dt) (ih _)

theorem becomes_cancel (lives : List Life) (objectId : String) :
    List.Forall₂ Life.Becomes lives (lives.map (Life.cancel objectId)) := by
  induction lives with
  | nil => exact .nil
  | cons life lives ih => exact .cons (life.becomes_cancel objectId) ih

-- A call goes on with the lives that there are, and may start another.
theorem becomes_continued (lives : List Life) (c : Call) : ∃ same added, continued lives c = same ++ added ∧
    List.Forall₂ Life.Becomes lives same ∧ ∀ life ∈ added, ∃ t, life.running? = some t := by
  cases c with
  | start objectId animation defaultEase =>
      let life := Life.start objectId animation defaultEase
      have hadded : ∀ other ∈ [life], ∃ t, other.running? = some t :=
        List.forall_mem_singleton.2 ⟨life.born, rfl⟩
      exact ⟨lives, [life], rfl, List.forall₂_same.2 fun life _ => .refl life, hadded⟩
  | cancel objectId => exact ⟨_, [], (List.append_nil _).symm, becomes_cancel lives objectId, fun _ h => nomatch h⟩
  | advance w dt => exact ⟨_, [], (List.append_nil _).symm, becomes_frame lives w dt, fun _ h => nomatch h⟩

-- Each life keeps its place.
def Kept (lives laters : List Life) : Prop :=
  ∀ (k : Nat) (life : Life), lives[k]? = some life → ∃ later, laters[k]? = some later ∧ life.Becomes later

theorem kept_continued (lives : List Life) (c : Call) : Kept lives (continued lives c) := by
  obtain ⟨same, added, hcontinued, hbecomes, -⟩ := becomes_continued lives c
  rw [hcontinued]
  clear hcontinued
  induction hbecomes with
  | nil =>
      intro k life hlife
      cases hlife
  | @cons life later lives laters hfirst hrest ih =>
      intro k
      cases k with
      | zero => exact fun life hlife => ⟨later, rfl, Option.some.inj hlife ▸ hfirst⟩
      | succ k => exact ih k

theorem kept_account (calls more : List Call) : Kept (account calls) (account (calls ++ more)) := by
  induction more using List.reverseRecOn with
  | nil =>
      rw [List.append_nil]
      exact fun k life hlife => ⟨life, hlife, .refl life⟩
  | append_singleton more c ih =>
      rw [← List.append_assoc, account_concat]
      intro k life hlife
      obtain ⟨later, hlater, hbecomes⟩ := ih k life hlife
      obtain ⟨last, hlast, hbecomes'⟩ := kept_continued _ c k later hlater
      exact ⟨last, hlast, hbecomes.trans hbecomes'⟩

theorem ends_perm {β : Type} (f : Life → Option β)
    (hf : ∀ (life : Life) t, life.running? = some t → f life = none)
    (lives : List Life) (c : Call) :
    ((continued lives c).filterMap f).Perm
      (lives.filterMap f ++ (ended lives (continued lives c)).filterMap f) := by
  obtain ⟨same, added, hcontinued, hbecomes, hadded⟩ := becomes_continued lives c
  rw [hcontinued]
  clear hcontinued
  induction hbecomes with
  | nil =>
      have hnone : added.filterMap f = [] := List.filterMap_eq_nil_iff.2 fun life hlife => by
        obtain ⟨t, ht⟩ := hadded life hlife
        exact hf life t ht
      cases added <;> simp [ended, hnone]
  | @cons life later lives laters hfirst hrest ih =>
      rw [List.cons_append]
      cases hrunning : life.running? with
      | none =>
          rw [hfirst.ended hrunning, ended_of_same, List.filterMap_cons, List.filterMap_cons]
          cases f life with
          | none => exact ih
          | some b => exact ih.cons b
      | some t =>
          rw [List.filterMap_cons_none (hf life t hrunning)]
          cases hlater : later.running? with
          | some u =>
              rw [ended_of_runs life hlater, List.filterMap_cons_none (hf later u hlater)]
              exact ih
          | none =>
              rw [ended_of_stops hrunning hlater, List.filterMap_cons, List.filterMap_cons]
              cases f later with
              | none => exact ih
              | some b => exact (ih.cons b).trans List.perm_middle.symm

def reports (animator : Animator) : List Call → List Report
  | [] => []
  | c :: calls => animator.report c :: reports (animator.call c) calls

theorem reports_concat (animator : Animator) (calls : List Call) (c : Call) :
    reports animator (calls ++ [c]) = reports animator calls ++ [(calls.foldl call animator).report c] := by
  induction calls generalizing animator with
  | nil => rfl
  | cons first calls ih =>
      rw [List.cons_append, reports, reports, List.cons_append, ih]
      rfl

def Call.started? : Call → Option Tween
  | .start objectId animation defaultEase => some (Tween.ofAnimation objectId animation defaultEase)
  | _ => none

theorem born_of_becomes {lives laters : List Life} (h : List.Forall₂ Life.Becomes lives laters) :
    laters.map Life.born = lives.map Life.born := by
  induction h with
  | nil => rfl
  | cons hfirst hrest ih => rw [List.map_cons, List.map_cons, hfirst.born, ih]

theorem born_continued (lives : List Life) (c : Call) :
    (continued lives c).map Life.born = lives.map Life.born ++ c.started?.toList := by
  cases c with
  | start objectId animation defaultEase => exact List.map_append
  | cancel objectId => exact (born_of_becomes (becomes_cancel lives objectId)).trans (List.append_nil _).symm
  | advance w dt => exact (born_of_becomes (becomes_frame lives w dt)).trans (List.append_nil _).symm

-- Every life runs, is completed, is dropped or is cancelled, and only one of these.
theorem length_eq_fates (lives : List Life) : lives.length = (lives.filterMap Life.running?).length +
    (lives.filterMap Life.completed?).length + (lives.filterMap Life.warning?).length +
    (lives.filterMap Life.cancelled?).length := by
  induction lives with
  | nil => rfl
  | cons life lives ih =>
      simp only [List.filterMap_cons, List.length_cons, ih]
      unfold Life.running? Life.completed? Life.warning? Life.cancelled?
      cases life.fate <;> (simp only [List.length_cons]; omega)

-- The account of these calls is complete: it has the tweens that were started, those that run are
-- the ones of the animator, and the others are those that were told to have ended.
structure Balanced (calls : List Call) : Prop where
  started : (account calls).map Life.born = calls.filterMap Call.started?
  running : (account calls).filterMap Life.running? = run calls
  completed : ((reports [] calls).flatMap Report.completed).Perm ((account calls).filterMap Life.completed?)
  warnings : ((reports [] calls).flatMap Report.warnings).Perm ((account calls).filterMap Life.warning?)
  cancelled : ((reports [] calls).map Report.cancelled).sum = ((account calls).filterMap Life.cancelled?).length
  total : (calls.filterMap Call.started?).length = (run calls).length +
    ((reports [] calls).flatMap Report.completed).length + ((reports [] calls).flatMap Report.warnings).length +
    ((reports [] calls).map Report.cancelled).sum

theorem accounted_account (calls : List Call) (c : Call) :
    Accounted (run calls) c (account calls) (account (calls ++ [c])) := by
  rw [account_concat, ← running_account]
  exact accounted (account calls) c

theorem started_account (calls : List Call) :
    (account calls).map Life.born = calls.filterMap Call.started? := by
  induction calls using List.reverseRecOn with
  | nil => rfl
  | append_singleton calls c ih =>
      rw [account_concat, born_continued, ih, List.filterMap_append]
      cases c <;> rfl

-- What the calls have returned in all are the ends of the lives, if what each returns are the ends that it brings.
theorem returned_perm {β : Type} (returned : Report → List β) (f : Life → Option β)
    (hf : ∀ (life : Life) t, life.running? = some t → f life = none)
    (hreturned : ∀ calls c, returned ((run calls).report c) =
      (ended (account calls) (account (calls ++ [c]))).filterMap f) (calls : List Call) :
    ((reports [] calls).flatMap returned).Perm ((account calls).filterMap f) := by
  induction calls using List.reverseRecOn with
  | nil => exact .refl []
  | append_singleton calls c ih =>
      have hends := ends_perm f hf (account calls) c
      have hlast : returned ((calls.foldl call []).report c) = _ := hreturned calls c
      rw [reports_concat, List.flatMap_append, List.flatMap_singleton, hlast, account_concat]
      exact (ih.append_right _).trans hends.symm

theorem cancelled_account (calls : List Call) :
    ((reports [] calls).map Report.cancelled).sum = ((account calls).filterMap Life.cancelled?).length := by
  induction calls using List.reverseRecOn with
  | nil => rfl
  | append_singleton calls c ih =>
      have hends := ends_perm Life.cancelled? (fun _ _ h => (Life.of_running h).2.2) (account calls) c
      have hlast : ((calls.foldl call []).report c).cancelled = _ := (accounted_account calls c).cancelled
      rw [account_concat] at hlast ⊢
      rw [reports_concat, List.map_append, List.sum_append, ih, List.map_singleton, List.sum_singleton, hlast,
        hends.length_eq, List.length_append]

theorem balanced (calls : List Call) : Balanced calls := by
  have hcompleted := returned_perm Report.completed Life.completed? (fun _ _ h => (Life.of_running h).1)
    (fun calls c => (accounted_account calls c).completed) calls
  have hwarnings := returned_perm Report.warnings Life.warning? (fun _ _ h => (Life.of_running h).2.1)
    (fun calls c => (accounted_account calls c).warnings) calls
  have hcancelled := cancelled_account calls
  refine ⟨started_account calls, running_account calls, hcompleted, hwarnings, hcancelled, ?_⟩
  rw [← started_account, List.length_map, length_eq_fates, running_account, hcompleted.length_eq,
    hwarnings.length_eq, hcancelled]

-- Whatever the calls, and whatever becomes of the world between two frames, each tween that was started runs or has
-- ended once: it was completed, dropped or cancelled in a call that says so, and takes no turn from then on. One that
-- is completed has landed on its target. A frame tells of its tweens in the order in which they were started.
theorem tweens_end_once (calls : List Call) : Balanced calls ∧ (∀ life ∈ account calls, life.Sound) ∧
    (∀ c, Accounted (run calls) c (account calls) (account (calls ++ [c]))) ∧
    ∀ more, Kept (account calls) (account (calls ++ more)) :=
  ⟨balanced calls, fun life _ => life.sound, accounted_account calls, kept_account calls⟩

-- A lamp that is dimmed after a second.
section Dimming

def lamp : World where
  scene := { objects := [.component { typeName := "Lamp", fields := [("level", Json.ofNat 4)] }] }
  registry := { entries := [("Lamp_0", { handle := 0 })], names := [(0, "Lamp_0")] }

def dimming : Animation where
  path := { text := "level", steps := [.ofMember "level"] }
  target := Json.ofNat 1
  duration := 1
  delay := 1
  ease := none
  callbackId := some "Callback_3"

def evening : List Call :=
  [.start "Lamp_0" dimming .linear, .advance lamp 0, .advance lamp 1, .advance lamp 1]

theorem tweens_end_once_lamp : ∃ life ∈ account evening, life.turns.map Turn.waits = [true, false, false] ∧
    life.turns.map Turn.reads = [false, true, false] ∧ life.completed? = some life.born.landed ∧ life.Sound ∧
    ((reports [] evening).flatMap Report.completed).Perm ((account evening).filterMap Life.completed?) := by
  have hlives : (account evening).map (fun life =>
      (life.turns.map Turn.waits, life.turns.map Turn.reads, life.completed?.isSome)) =
      [([true, false, false], [false, true, false], true)] := by decide +kernel
  obtain ⟨hbalanced, hsound, -⟩ := tweens_end_once evening
  have hcompleted := hbalanced.completed
  cases haccount : account evening with
  | nil =>
      rw [haccount] at hlives
      cases hlives
  | cons life rest =>
      have hlife : life ∈ account evening := by
        rw [haccount]
        exact List.mem_cons_self
      rw [haccount, List.map_cons] at hlives
      obtain ⟨hwaits, hfirst⟩ := Prod.mk.inj (List.cons.inj hlives).1
      obtain ⟨hreads, hsome⟩ := Prod.mk.inj hfirst
      obtain ⟨done, hdone⟩ := Option.isSome_iff_exists.1 hsome
      have hfate : life.fate = .completed done := Life.completed?_eq_some.1 hdone
      have hlanded : done = life.born.landed := ((hsound life hlife).lands done hfate).1
      rw [hlanded] at hdone
      rw [haccount] at hcompleted
      exact ⟨life, List.mem_cons_self, hwaits, hreads, hdone, hsound life hlife, hcompleted⟩

end Dimming

end Runs

end SceneLink.Animator
