import SceneLink.Proofs.Link.Procedure

namespace SceneLink.Procedure

variable {σ τ ε δ α β : Type}

def Meets (pre : σ → Prop) (p : Procedure σ ε α) (post : α → σ → Prop) (fail : ε → σ → Prop) : Prop :=
  ∀ s, pre s → match (p s).value with
    | (.ok a, t) => post a t
    | (.error e, t) => fail e t

-- Whether a procedure fails or not, what held of the state still holds.
def Keeps (inv : σ → Prop) (p : Procedure σ ε α) : Prop :=
  Meets inv p (fun _ => inv) (fun _ => inv)

def Succeeds (inv : σ → Prop) (p : Procedure σ ε α) : Prop :=
  Meets inv p (fun _ => inv) (fun _ _ => False)

section Rules

variable {pre : σ → Prop} {post : α → σ → Prop} {fail : ε → σ → Prop}

theorem Meets.of_value {p : Procedure σ ε α} {s t : σ} {result : Except ε α}
    (h : Meets pre p post fail) (hs : pre s) (hvalue : (p s).value = (result, t)) :
    match result with
      | .ok a => post a t
      | .error e => fail e t := by
  have := h s hs
  rw [hvalue] at this
  cases result <;> exact this

theorem Meets.mono {p : Procedure σ ε α} {pre' : σ → Prop} {post' : α → σ → Prop}
    {fail' : ε → σ → Prop} (h : Meets pre p post fail) (hpre : ∀ s, pre' s → pre s)
    (hpost : ∀ a s, post a s → post' a s) (hfail : ∀ e s, fail e s → fail' e s) :
    Meets pre' p post' fail' := by
  intro s hs
  have hp := h s (hpre s hs)
  revert hp
  rcases (p s).value with ⟨result, t⟩
  cases result with
  | ok a => exact hpost a t
  | error e => exact hfail e t

theorem Meets.bind {p : Procedure σ ε α} {f : α → Procedure σ ε β} {mid : α → σ → Prop}
    {post : β → σ → Prop} (hp : Meets pre p mid fail) (hf : ∀ a, Meets (mid a) (f a) post fail) :
    Meets pre (p >>= f) post fail := by
  intro s hs
  have hmid := hp s hs
  rw [bind_value]
  revert hmid
  rcases (p s).value with ⟨result, t⟩
  cases result with
  | ok a => exact hf a t
  | error e => exact id

end Rules

section Looks

def Looks (p : Procedure σ ε α) : Prop := ∀ s, (p s).value.2 = s

theorem looks_get : Looks (get : Procedure σ ε σ) := fun _ => rfl

theorem looks_log (line : Logged Log.Line α) : Looks (log line : Procedure σ ε α) := fun _ => rfl

theorem looks_ofExcept (result : Except ε α) : Looks (ofExcept result : Procedure σ ε α) :=
  fun _ => rfl

theorem Looks.meets {p : Procedure σ ε α} (h : Looks p) (inv : σ → Prop) : Keeps inv p := by
  intro s hs
  have hp := h s
  revert hp
  rcases (p s).value with ⟨result, t⟩
  rintro rfl
  cases result <;> exact hs

end Looks

section Keeps

variable {inv : σ → Prop}

theorem keeps_iff {p : Procedure σ ε α} : Keeps inv p ↔ ∀ s, inv s → inv (p s).value.2 := by
  constructor
  · intro h s hs
    have hp := h s hs
    revert hp
    rcases (p s).value with ⟨result, t⟩
    cases result <;> exact id
  · intro h s hs
    have hp := h s hs
    revert hp
    rcases (p s).value with ⟨result, t⟩
    cases result <;> exact id

theorem Keeps.bind {p : Procedure σ ε α} {f : α → Procedure σ ε β} (hp : Keeps inv p)
    (hf : ∀ a, Keeps inv (f a)) : Keeps inv (p >>= f) :=
  Meets.bind hp hf

theorem Keeps.onPart {part : σ → τ} {put : σ → τ → σ} {p : Procedure τ ε α}
    (h : ∀ s, inv s → inv (put s (p (part s)).value.2)) : Keeps inv (onPart part put p) :=
  keeps_iff.2 h

end Keeps

section Succeeds

variable {inv : σ → Prop}

theorem succeeds_pure (a : α) : Succeeds inv (pure a : Procedure σ ε α) := fun _ hs => hs

theorem succeeds_get : Succeeds inv (get : Procedure σ ε σ) := fun _ hs => hs

theorem succeeds_log (line : Logged Log.Line α) : Succeeds inv (log line : Procedure σ ε α) :=
  fun _ hs => hs

theorem succeeds_modify {f : σ → σ} (h : ∀ s, inv s → inv (f s)) :
    Succeeds inv (modify f : Procedure σ ε PUnit) := h

theorem succeeds_set {t : σ} (h : inv t) : Succeeds inv (set t : Procedure σ ε PUnit) := fun _ _ => h

theorem Succeeds.keeps {p : Procedure σ ε α} (h : Succeeds inv p) : Keeps inv p :=
  h.mono (fun _ => id) (fun _ _ => id) (fun _ _ => False.elim)

theorem Succeeds.bind {p : Procedure σ ε α} {f : α → Procedure σ ε β} (hp : Succeeds inv p)
    (hf : ∀ a, Succeeds inv (f a)) : Succeeds inv (p >>= f) :=
  Meets.bind hp hf

-- A failure that becomes a value, or a warning, is none.
theorem Keeps.outcome {p : Procedure σ δ α} (h : Keeps inv p) :
    Succeeds inv (outcome p : Procedure σ ε (Except δ α)) :=
  keeps_iff.1 h

theorem Keeps.orWarn {p : Procedure σ δ Unit} (h : Keeps inv p) (warning : δ → String) :
    Succeeds inv (orWarn warning p : Procedure σ ε Unit) := by
  intro s hs
  rw [orWarn_value]
  exact keeps_iff.1 h s hs

end Succeeds

section Guarded

variable {inv : σ → Prop}

-- A procedure that fails only as long as nothing has changed.
def Guarded (inv : σ → Prop) (p : Procedure σ ε α) : Prop :=
  ∀ s, inv s → Meets (· = s) p (fun _ => inv) (fun _ t => t = s)

theorem Succeeds.guarded {p : Procedure σ ε α} (h : Succeeds inv p) : Guarded inv p :=
  fun _ hs => h.mono (fun _ ht => ht ▸ hs) (fun _ _ => id) (fun _ _ => False.elim)

-- What goes on with the state that it has looked at.
theorem guarded_get {f : σ → Procedure σ ε α}
    (hf : ∀ s, inv s → Guarded inv (f s)) : Guarded inv (get >>= f) := by
  rintro s hs _ rfl
  exact hf _ hs _ hs _ rfl

theorem guarded_throw (e : ε) : Guarded inv (throw e : Procedure σ ε α) :=
  fun _ _ _ ht => ht

-- What comes before the first change may fail,
theorem Looks.bind_guarded {p : Procedure σ ε α} {f : α → Procedure σ ε β} (hp : Looks p)
    (hf : ∀ a, Guarded inv (f a)) : Guarded inv (p >>= f) :=
  fun s hs => Meets.bind (hp.meets (· = s)) fun a => hf a s hs

-- and what comes after it may not.
theorem Guarded.bind {p : Procedure σ ε α} {f : α → Procedure σ ε β} (hp : Guarded inv p)
    (hf : ∀ a, Succeeds inv (f a)) : Guarded inv (p >>= f) :=
  fun s hs => Meets.bind (hp s hs) fun a => (hf a).mono (fun _ => id) (fun _ _ => id)
    (fun _ _ => False.elim)

theorem Guarded.keeps {p : Procedure σ ε α} (h : Guarded inv p) : Keeps inv p :=
  fun s hs => (h s hs).mono (fun _ => id) (fun _ _ => id) (fun _ _ ht => ht ▸ hs) s rfl

theorem Guarded.eq_of_error {p : Procedure σ ε α} (h : Guarded inv p) {s t : σ} {e : ε} (hs : inv s)
    (hvalue : (p s).value = (.error e, t)) : t = s :=
  (h s hs).of_value rfl hvalue

end Guarded

section Known

variable {inv : σ → Prop} {s t : σ}

-- What meets `inv` again, whether it fails or not, from one state that is known.
def Restores (inv : σ → Prop) (s : σ) (p : Procedure σ ε α) : Prop :=
  Meets (· = s) p (fun _ => inv) (fun _ => inv)

theorem keeps_get {f : σ → Procedure σ ε α} (hf : ∀ s, inv s → Restores inv s (f s)) :
    Keeps inv (get >>= f) :=
  fun s hs => hf s hs s rfl

-- The state is known as long as it is only looked at,
theorem Looks.bind_restores {p : Procedure σ ε α} {f : α → Procedure σ ε β} (hp : Looks p) (hs : inv s)
    (hf : ∀ a, Restores inv s (f a)) : Restores inv s (p >>= f) :=
  Meets.bind ((hp.meets (· = s)).mono (fun _ => id) (fun _ _ => id) fun _ _ ht => ht ▸ hs) hf

theorem restores_log {line : Logged Log.Line α} {f : α → Procedure σ ε β}
    (hf : Restores inv s (f line.value)) : Restores inv s (log line >>= f) :=
  fun t ht => hf t ht

-- and from the first change on there is only `inv`.
theorem restores_set {f : PUnit → Procedure σ ε β} (ht : inv t) (hf : Keeps inv (f ⟨⟩)) :
    Restores inv s (set t >>= f) := by
  have hset : Meets (· = s) (set t : Procedure σ ε PUnit) (fun _ => inv) fun _ => inv := fun _ _ => ht
  exact hset.bind fun _ => hf

theorem Keeps.restores {p : Procedure σ ε α} (h : Keeps inv p) (hs : inv s) : Restores inv s p :=
  h.mono (fun _ ht => ht ▸ hs) (fun _ _ => id) fun _ _ => id

end Known

end SceneLink.Procedure
