import SceneLink.Log

namespace SceneLink

-- What a procedure did to the state before it failed stays done.
abbrev Procedure (σ ε α : Type) := ExceptT ε (StateT σ (Logged Log.Line)) α

namespace Procedure

variable {σ τ ε δ α : Type}

def log (line : Logged Log.Line α) : Procedure σ ε α := fun s =>
  ⟨(.ok line.value, s), line.output⟩

def ofExcept (result : Except ε α) : Procedure σ ε α := fun s => pure (result, s)

def onPart (part : σ → τ) (put : σ → τ → σ) (p : Procedure τ ε α) : Procedure σ ε α :=
  fun s => do
    let (result, t) ← p (part s)
    return (result, put s t)

def mapError (f : δ → ε) (p : Procedure σ δ α) : Procedure σ ε α := fun s => do
  let (result, s) ← p s
  return (result.mapError f, s)

def outcome (p : Procedure σ δ α) : Procedure σ ε (Except δ α) := fun s => do
  let (result, s) ← p s
  return (.ok result, s)

def orWarn (warning : δ → String) (p : Procedure σ δ Unit) : Procedure σ ε Unit := do
  match ← p.outcome with
  | .ok () => return
  | .error e => log (Log.warn (warning e))

end Procedure

end SceneLink
