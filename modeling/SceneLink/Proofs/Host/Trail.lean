import SceneLink.Proofs.Host.Refusal

namespace SceneLink.Host

def Knows (h : Host) (id : String) : Prop := h.world.registry.contains id = true

inductive Moment where
  | queues (op : Operation)
  | registers (id : String)
  -- An object is forgotten with its tweens, and the event that says so is queued.
  | forgets (id : String) (data : Option Json)
  | starts (id : String) (animations : List Animation)
  | advances (dt : Double)
  -- Nothing changes that the other moments are about.
  | rests

def Moment.operation? : Moment → Option Operation
  | queues op => some op
  | forgets id data => some { Operation.destroyed id with data }
  | _ => none

def Moves (h k : Host) : Moment → Prop
  | .queues op => k = h.posted op
  | .registers id => ¬ h.Knows id ∧ (∀ other, k.Knows other ↔ other = id ∨ h.Knows other) ∧
      k.animator = h.animator ∧ k.outbox = h.outbox
  | .forgets id data => h.Knows id ∧ (∀ other, k.Knows other ↔ other ≠ id ∧ h.Knows other) ∧
      k.animator = (h.animator.cancel id).2 ∧
      k.outbox = h.outbox.posted { Operation.destroyed id with data }
  | .starts id animations => h.Knows id ∧ k = { h with
      animator := animations.foldl
        (fun animator animation => animator.start id animation h.settings.defaultEase) h.animator }
  | .advances dt => k = { h with
      world := (h.animator.advance h.world dt).value.world
      animator := (h.animator.advance h.world dt).value.running }
  | .rests => (∀ id, k.Knows id ↔ h.Knows id) ∧ k.animator = h.animator ∧
      k.outbox.texts = h.outbox.texts

abbrev Entries := List (Host × Moment)

def Trail : Host → Entries → Host → Prop
  | h, [], k => h = k
  | h, (s, m) :: rest, k => s = h ∧ ∃ next, Moves h next m ∧ Trail next rest k

def queued (trail : Entries) : List Operation := trail.filterMap (·.2.operation?)

section Trails

variable {h k l : Host} {trail rest : Entries} {m : Moment}

theorem trail_append : Trail h (trail ++ rest) l ↔ ∃ k, Trail h trail k ∧ Trail k rest l := by
  induction trail generalizing h with
  | nil => exact ⟨fun hr => ⟨h, rfl, hr⟩, fun ⟨_, heq, hr⟩ => heq ▸ hr⟩
  | cons entry trail ih =>
      obtain ⟨s, m⟩ := entry
      constructor
      · rintro ⟨rfl, next, hmoves, htrail⟩
        obtain ⟨k, hfirst, hrest⟩ := ih.1 htrail
        exact ⟨k, ⟨rfl, next, hmoves, hfirst⟩, hrest⟩
      · rintro ⟨k, ⟨rfl, next, hmoves, hfirst⟩, hrest⟩
        exact ⟨rfl, next, hmoves, ih.2 ⟨k, hfirst, hrest⟩⟩

theorem Trail.split {before after : Entries} {s : Host} (ht : Trail h (before ++ (s, m) :: after) k) :
    Trail h before s ∧ ∃ next, Moves s next m ∧ Trail next after k := by
  obtain ⟨_, hbefore, rfl, hafter⟩ := trail_append.1 ht
  exact ⟨hbefore, hafter⟩

theorem queued_append (trail rest : Entries) : queued (trail ++ rest) = queued trail ++ queued rest :=
  List.filterMap_append

theorem texts_of_moves (h' : Moves h k m) :
    k.outbox.texts = h.outbox.texts ++ m.operation?.toList.map Operation.text := by
  cases m with
  | queues op =>
      rw [show k = h.posted op from h']
      exact Outbox.texts_posted _ _
  | registers id =>
      rw [h'.2.2.2]
      exact (List.append_nil _).symm
  | forgets id data =>
      rw [h'.2.2.2]
      exact Outbox.texts_posted _ _
  | starts id animations =>
      rw [h'.2]
      exact (List.append_nil _).symm
  | advances dt =>
      rw [show k = _ from h']
      exact (List.append_nil _).symm
  | rests =>
      rw [h'.2.2]
      exact (List.append_nil _).symm

-- Nothing else enters the outbox.
theorem Trail.texts (ht : Trail h trail k) :
    k.outbox.texts = h.outbox.texts ++ (queued trail).map Operation.text := by
  induction trail generalizing h with
  | nil =>
      rw [show h = k from ht]
      exact (List.append_nil _).symm
  | cons entry trail ih =>
      obtain ⟨s, m⟩ := entry
      obtain ⟨rfl, next, hmoves, hrest⟩ := ht
      rw [ih hrest, texts_of_moves hmoves, List.append_assoc, ← List.map_append]
      congr 2
      unfold queued
      rw [List.filterMap_cons]
      cases m.operation? <;> rfl

end Trails

section Registered

variable {h k s : Host} {m : Moment} {trail : Entries} {id : String}

theorem registry_advanced (h : Host) (dt : Double) :
    (h.animator.advance h.world dt).value.world.registry = h.world.registry := by
  obtain ⟨scene, hscene⟩ := (Animator.advance_spec h.animator h.world dt).world.scene
  rw [hscene]

-- Only a moment that registers an object makes it known, and only one that forgets it ends that.
theorem knows_iff_of_moves (h' : Moves h k m) :
    k.Knows id ↔ m = .registers id ∨ (h.Knows id ∧ ∀ data, m ≠ .forgets id data) := by
  cases m with
  | queues op =>
      rw [show k = h.posted op from h']
      exact ⟨fun hh => .inr ⟨hh, nofun⟩, fun hh => (hh.resolve_left nofun).1⟩
  | registers other =>
      rw [h'.2.1 id, Moment.registers.injEq, eq_comm]
      exact or_congr_right ⟨fun hh => ⟨hh, nofun⟩, And.left⟩
  | forgets other data =>
      rw [h'.2.1 id]
      constructor
      · rintro ⟨hne, hh⟩
        exact .inr ⟨hh, fun _ heq => hne (Moment.forgets.inj heq).1.symm⟩
      · rintro (heq | ⟨hh, hne⟩)
        · cases heq
        · exact ⟨fun heq => hne data (by rw [heq]), hh⟩
  | starts other animations =>
      rw [h'.2]
      exact ⟨fun hh => .inr ⟨hh, nofun⟩, fun hh => (hh.resolve_left nofun).1⟩
  | advances dt =>
      rw [show k = _ from h']
      unfold Knows
      rw [registry_advanced]
      exact ⟨fun hh => .inr ⟨hh, nofun⟩, fun hh => (hh.resolve_left nofun).1⟩
  | rests =>
      rw [h'.1 id]
      exact ⟨fun hh => .inr ⟨hh, nofun⟩, fun hh => (hh.resolve_left nofun).1⟩

theorem Trail.knows (ht : Trail h trail k) (hnone : ∀ entry ∈ trail, entry.2 ≠ .registers id)
    (hk : k.Knows id) : h.Knows id := by
  induction trail generalizing h with
  | nil =>
      rw [show h = k from ht]
      exact hk
  | cons entry trail ih =>
      obtain ⟨s, m⟩ := entry
      obtain ⟨rfl, next, hmoves, hrest⟩ := ht
      obtain ⟨hm, hlater⟩ := List.forall_mem_cons.1 hnone
      exact (((knows_iff_of_moves hmoves).1 (ih hrest hlater)).resolve_left hm).1

-- Whatever was queued last, a moment finds an object that was forgotten only if it was registered since.
theorem Trail.forgotten {before middle after : Entries} {data : Option Json}
    (ht : Trail h (before ++ (s, .forgets id data) :: (middle ++ (k, m) :: after)) l)
    (hnone : ∀ entry ∈ middle, entry.2 ≠ .registers id) : ¬ k.Knows id := by
  obtain ⟨-, next, hmoves, hrest⟩ := ht.split
  intro hk
  exact ((hmoves.2.1 id).1 (hrest.split.1.knows hnone hk)).1 rfl

end Registered

section Tweens

variable {h k : Host} {m : Moment} {trail : Entries}

-- Tweens run for registered objects only.
def Bound (h : Host) : Prop := ∀ t ∈ h.animator, h.Knows t.objectId

-- A tween was started by an animation of this moment.
def Starts (h : Host) (t : Tween) : Moment → Prop
  | .starts id animations => t.objectId = id ∧
      ∃ animation ∈ animations, (Tween.ofAnimation id animation h.settings.defaultEase).Continues t
  | _ => False

theorem mem_foldl_start {animations : List Animation} {animator : Animator} {id : String} {ease : Ease}
    {t : Tween} (ht : t ∈ animations.foldl (fun animator animation => animator.start id animation ease)
      animator) :
    t ∈ animator ∨ ∃ animation ∈ animations, t = Tween.ofAnimation id animation ease := by
  induction animations generalizing animator with
  | nil => exact .inl ht
  | cons animation animations ih =>
      rcases ih ht with hmem | ⟨other, hother, heq⟩
      · rcases List.mem_append.1 hmem with hmem | hnew
        · exact .inl hmem
        · exact .inr ⟨animation, List.mem_cons_self, List.mem_singleton.1 hnew⟩
      · exact .inr ⟨other, List.mem_cons_of_mem _ hother, heq⟩

-- A tween that runs after a moment ran before it, for an object that is not forgotten, or starts with it.
theorem tween_of_moves (h' : Moves h k m) {t : Tween} (ht : t ∈ k.animator) :
    (∃ u ∈ h.animator, u.Continues t ∧ ∀ data, m ≠ .forgets t.objectId data) ∨ Starts h t m := by
  cases m with
  | queues op =>
      rw [show k = h.posted op from h'] at ht
      exact .inl ⟨t, ht, .refl t, nofun⟩
  | registers id =>
      rw [h'.2.2.1] at ht
      exact .inl ⟨t, ht, .refl t, nofun⟩
  | forgets id data =>
      rw [h'.2.2.1] at ht
      obtain ⟨hmem, hne⟩ := List.mem_filter.1 ht
      refine .inl ⟨t, hmem, .refl t, fun data heq => ?_⟩
      cases heq
      simp at hne
  | starts id animations =>
      rw [h'.2] at ht
      rcases mem_foldl_start ht with hmem | ⟨animation, hanimation, rfl⟩
      · exact .inl ⟨t, hmem, .refl t, nofun⟩
      · exact .inr ⟨rfl, animation, hanimation, .refl _⟩
  | advances dt =>
      rw [show k = _ from h'] at ht
      obtain ⟨u, hu, hcontinues⟩ := (Animator.advance_spec h.animator h.world dt).running t ht
      exact .inl ⟨u, hu, hcontinues, nofun⟩
  | rests =>
      rw [h'.2.1] at ht
      exact .inl ⟨t, ht, .refl t, nofun⟩

theorem bound_of_moves (hh : h.Bound) (h' : Moves h k m) : k.Bound := by
  intro t ht
  rw [knows_iff_of_moves h']
  rcases tween_of_moves h' ht with ⟨u, hu, hcontinues, hforgets⟩ | hstarts
  · exact .inr ⟨hcontinues.objectId ▸ hh u hu, hforgets⟩
  · cases m with
    | starts id animations =>
        rw [hstarts.1]
        exact .inr ⟨h'.1, nofun⟩
    | _ => exact hstarts.elim

theorem Trail.bound (ht : Trail h trail k) (hh : h.Bound) : k.Bound := by
  induction trail generalizing h with
  | nil =>
      rw [← show h = k from ht]
      exact hh
  | cons entry trail ih =>
      obtain ⟨s, m⟩ := entry
      obtain ⟨rfl, next, hmoves, hrest⟩ := ht
      exact ih hrest (bound_of_moves hh hmoves)

theorem Starts.continues {t u : Tween} (h' : Starts h t m) (hu : t.Continues u) : Starts h u m := by
  cases m with
  | starts id animations =>
      obtain ⟨hid, animation, hanimation, hstarted⟩ := h'
      exact ⟨hu.objectId.trans hid, animation, hanimation, hstarted.trans hu⟩
  | _ => exact h'.elim

-- A tween was started on the way, and its object has not been forgotten since.
def Since (trail : Entries) (t : Tween) : Prop :=
  ∃ earlier s m later, trail = earlier ++ (s, m) :: later ∧ Starts s t m ∧
    ∀ entry ∈ later, ∀ data, entry.2 ≠ .forgets t.objectId data

theorem Trail.tween (ht : Trail h trail k) {t : Tween} (hmem : t ∈ k.animator) :
    (∃ u ∈ h.animator, u.Continues t ∧ ∀ entry ∈ trail, ∀ data, entry.2 ≠ .forgets t.objectId data) ∨
      Since trail t := by
  induction trail generalizing h with
  | nil =>
      rw [← show h = k from ht] at hmem
      exact .inl ⟨t, hmem, .refl t, fun _ hentry => absurd hentry List.not_mem_nil⟩
  | cons entry trail ih =>
      obtain ⟨s, m⟩ := entry
      obtain ⟨rfl, next, hmoves, hrest⟩ := ht
      rcases ih hrest with ⟨u, hu, hcontinues, hnone⟩ | ⟨earlier, s', m', later, rfl, hstarts, hnone⟩
      · rcases tween_of_moves hmoves hu with ⟨v, hv, hbefore, hforgets⟩ | hstarts
        · refine .inl ⟨v, hv, hbefore.trans hcontinues, List.forall_mem_cons.2 ⟨?_, hnone⟩⟩
          rwa [hcontinues.objectId]
        · exact .inr ⟨[], s, m, trail, rfl, hstarts.continues hcontinues, hnone⟩
      · exact .inr ⟨(s, m) :: earlier, s', m', later, rfl, hstarts, hnone⟩

end Tweens

section Procedures

variable {α β : Type}

-- A procedure goes through a trail, from a host and to a result and a host. Its parts do so one
-- after the other, and each of them either only looks at the host or is done in one moment.
inductive Goes : {α : Type} → Action α → Host → Entries → Except HostError α → Host → Prop
  | looks {α : Type} {p : Action α} {h : Host} {r : Except HostError α} (hvalue : (p h).value = (r, h)) :
      Goes p h [] r h
  | moves {α : Type} {p : Action α} {h k : Host} {r : Except HostError α} {m : Moment}
      (hvalue : (p h).value = (r, k)) (hmoves : Moves h k m) : Goes p h [(h, m)] r k
  | bind {α β : Type} {p : Action α} {f : α → Action β} {h k l : Host} {trail rest : Entries} {a : α}
      {r : Except HostError β} (hp : Goes p h trail (.ok a) k) (hf : Goes (f a) k rest r l) :
      Goes (p >>= f) h (trail ++ rest) r l
  | stops {α β : Type} {p : Action α} {f : α → Action β} {h k : Host} {trail : Entries} {e : HostError}
      (hp : Goes p h trail (.error e) k) : Goes (p >>= f) h trail (.error e) k
  | outcome {α : Type} {p : Action α} {h k : Host} {trail : Entries} {r : Except HostError α}
      (hp : Goes p h trail r k) : Goes (Procedure.outcome p) h trail (.ok r) k

theorem Goes.value {p : Action α} {h k : Host} {trail : Entries} {r : Except HostError α}
    (h' : Goes p h trail r k) : (p h).value = (r, k) := by
  induction h' with
  | looks hvalue => exact hvalue
  | moves hvalue => exact hvalue
  | bind _ _ ihp ihf => rw [Procedure.bind_value, ihp, ← ihf]
  | stops _ ihp => rw [Procedure.bind_value, ihp]
  | outcome _ ihp => rw [Procedure.outcome_value, ihp]

theorem Goes.trail {p : Action α} {h k : Host} {trail : Entries} {r : Except HostError α}
    (h' : Goes p h trail r k) : Trail h trail k := by
  induction h' with
  | looks => rfl
  | moves _ hmoves => exact ⟨rfl, _, hmoves, rfl⟩
  | bind _ _ ihp ihf => exact trail_append.2 ⟨_, ihp, ihf⟩
  | stops _ ihp => exact ihp
  | outcome _ ihp => exact ihp

-- A procedure goes through a trail of which `post` holds, with its result.
def Tells (p : Action α) (h : Host) (post : Entries → Except HostError α → Prop) : Prop :=
  ∃ trail r k, Goes p h trail r k ∧ post trail r

variable {h k : Host}

theorem Tells.looks {p : Action α} {post : Entries → Except HostError α → Prop}
    {r : Except HostError α} (hvalue : (p h).value = (r, h)) (hpost : post [] r) : Tells p h post :=
  ⟨[], r, h, .looks hvalue, hpost⟩

theorem Tells.moves {p : Action α} {post : Entries → Except HostError α → Prop}
    {r : Except HostError α} {m : Moment} (hvalue : (p h).value = (r, k)) (hmoves : Moves h k m)
    (hpost : post [(h, m)] r) : Tells p h post :=
  ⟨[(h, m)], r, k, .moves hvalue hmoves, hpost⟩

theorem Tells.mono {p : Action α} {post post' : Entries → Except HostError α → Prop}
    (hp : Tells p h post) (himp : ∀ trail r, post trail r → post' trail r) : Tells p h post' := by
  obtain ⟨trail, r, k, hgoes, hpost⟩ := hp
  exact ⟨trail, r, k, hgoes, himp trail r hpost⟩

variable {p : Action α} {f : α → Action β} {post : Entries → Except HostError β → Prop}

theorem Tells.looks_bind (hp : Procedure.Looks p) (hok : ∀ a, (p h).value.1 = .ok a → Tells (f a) h post)
    (herror : ∀ e, (p h).value.1 = .error e → post [] (.error e)) : Tells (p >>= f) h post := by
  have hsame : (p h).value = ((p h).value.1, h) := Prod.ext rfl (hp h)
  cases hr : (p h).value.1 with
  | error e =>
      rw [hr] at hsame
      exact ⟨[], .error e, h, .stops (.looks hsame), herror e hr⟩
  | ok a =>
      rw [hr] at hsame
      obtain ⟨rest, r, l, hgoes, hpost⟩ := hok a hr
      exact ⟨rest, r, l, .bind (.looks hsame) hgoes, hpost⟩

theorem Tells.moves_bind {a : α} {m : Moment} (hvalue : (p h).value = (.ok a, k)) (hmoves : Moves h k m)
    (hf : Tells (f a) k fun rest r => post ((h, m) :: rest) r) : Tells (p >>= f) h post := by
  obtain ⟨rest, r, l, hgoes, hpost⟩ := hf
  exact ⟨(h, m) :: rest, r, l, .bind (.moves hvalue hmoves) hgoes, hpost⟩

theorem Tells.bind {mid : Entries → Except HostError α → Prop} (hp : Tells p h mid)
    (hok : ∀ trail a k, mid trail (.ok a) → Tells (f a) k fun rest r => post (trail ++ rest) r)
    (herror : ∀ trail e, mid trail (.error e) → post trail (.error e)) : Tells (p >>= f) h post := by
  obtain ⟨trail, r, k, hgoes, hmid⟩ := hp
  cases r with
  | error e => exact ⟨trail, .error e, k, .stops hgoes, herror trail e hmid⟩
  | ok a =>
      obtain ⟨rest, r, l, hrest, hpost⟩ := hok trail a k hmid
      exact ⟨trail ++ rest, r, l, .bind hgoes hrest, hpost⟩

theorem Tells.get_bind {f : Host → Action β} (hf : Tells (f h) h post) : Tells (get >>= f) h post :=
  Tells.looks_bind Procedure.looks_get (fun _ heq => Except.ok.inj heq ▸ hf) nofun

theorem Tells.log_bind {line : Logged Log.Line α} (hf : Tells (f line.value) h post) :
    Tells (Procedure.log line >>= f) h post :=
  Tells.looks_bind (Procedure.looks_log line) (fun _ heq => Except.ok.inj heq ▸ hf) nofun

theorem Tells.ofExcept_bind {result : Except HostError α} (hok : ∀ a, result = .ok a → Tells (f a) h post)
    (herror : ∀ e, result = .error e → post [] (.error e)) :
    Tells (Procedure.ofExcept result >>= f) h post :=
  Tells.looks_bind (Procedure.looks_ofExcept result) hok herror

end Procedures

end SceneLink.Host
