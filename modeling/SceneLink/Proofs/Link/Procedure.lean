import SceneLink.Link.Procedure

namespace SceneLink

instance {ω : Type} : LawfulMonad (Logged ω) :=
  LawfulMonad.mk' (Logged ω)
    (fun ⟨_, _⟩ => congrArg (Logged.mk _) (List.append_nil _))
    (fun _ _ => rfl)
    (fun _ _ _ => congrArg (Logged.mk _) (List.append_assoc _ _ _))

namespace Procedure

variable {σ τ ε δ α β : Type}

@[simp] theorem pure_value (a : α) (s : σ) : ((pure a : Procedure σ ε α) s).value = (.ok a, s) := rfl

theorem bind_value (p : Procedure σ ε α) (f : α → Procedure σ ε β) (s : σ) :
    ((p >>= f) s).value = match (p s).value with
      | (.ok a, t) => (f a t).value
      | (.error e, t) => (.error e, t) := by
  change ((match (p s).value.1 with
    | .ok a => f a
    | .error e => (pure (.error e) : StateT σ (Logged Log.Line) (Except ε β))) (p s).value.2).value = _
  cases h : (p s).value with
  | mk result t => cases result <;> rfl

@[simp] theorem bind_value_ok {p : Procedure σ ε α} {s t : σ} {a : α}
    (h : (p s).value = (.ok a, t)) (f : α → Procedure σ ε β) :
    ((p >>= f) s).value = (f a t).value := by
  rw [bind_value, h]

@[simp] theorem get_value (s : σ) : ((get : Procedure σ ε σ) s).value = (.ok s, s) := rfl

@[simp] theorem set_value (s t : σ) :
    ((set t : Procedure σ ε PUnit) s).value = (.ok ⟨⟩, t) := rfl

@[simp] theorem modify_value (f : σ → σ) (s : σ) :
    ((modify f : Procedure σ ε PUnit) s).value = (.ok ⟨⟩, f s) := rfl

@[simp] theorem throw_value (e : ε) (s : σ) :
    ((throw e : Procedure σ ε α) s).value = (.error e, s) := rfl

@[simp] theorem log_value (line : Logged Log.Line α) (s : σ) :
    ((log line : Procedure σ ε α) s).value = (.ok line.value, s) := rfl

@[simp] theorem ofExcept_value (result : Except ε α) (s : σ) :
    ((ofExcept result : Procedure σ ε α) s).value = (result, s) := rfl

theorem onPart_value (part : σ → τ) (put : σ → τ → σ) (p : Procedure τ ε α) (s : σ) :
    (onPart part put p s).value = ((p (part s)).value.1, put s (p (part s)).value.2) := rfl

theorem mapError_value (f : δ → ε) (p : Procedure σ δ α) (s : σ) :
    (mapError f p s).value = ((p s).value.1.mapError f, (p s).value.2) := rfl

theorem outcome_value (p : Procedure σ δ α) (s : σ) :
    ((outcome p : Procedure σ ε (Except δ α)) s).value = (.ok (p s).value.1, (p s).value.2) := rfl

theorem orWarn_value (warning : δ → String) (p : Procedure σ δ Unit) (s : σ) :
    ((orWarn warning p : Procedure σ ε Unit) s).value = (.ok (), (p s).value.2) := by
  unfold orWarn
  rw [bind_value, outcome_value]
  cases (p s).value.1 <;> rfl

end Procedure

end SceneLink
