namespace SceneLink

namespace Log

inductive Level where
  | error | warn | info | trace
deriving DecidableEq

def Level.name : Level → String
  | error => "ERROR"
  | warn => "WARN"
  | info => "INFO"
  | trace => "TRACE"

structure Line where
  level : Level
  text : String
deriving DecidableEq

def Line.render (line : Line) : String := s!"{line.level.name} {line.text}"

end Log

-- A value with what was written while it was computed, in order.
structure Logged (ω α : Type) where
  value : α
  output : List ω

namespace Logged

variable {ω α β : Type}

instance : Monad (Logged ω) where
  pure a := ⟨a, []⟩
  bind x f := ⟨(f x.value).value, x.output ++ (f x.value).output⟩

@[simp] theorem pure_value (a : α) : (pure a : Logged ω α).value = a := rfl
@[simp] theorem pure_output (a : α) : (pure a : Logged ω α).output = [] := rfl
@[simp] theorem bind_value (x : Logged ω α) (f : α → Logged ω β) :
    (x >>= f).value = (f x.value).value := rfl
@[simp] theorem bind_output (x : Logged ω α) (f : α → Logged ω β) :
    (x >>= f).output = x.output ++ (f x.value).output := rfl

theorem bind_pure_eq (x : Logged ω α) (f : α → β) :
    (do return f (← x)) = (⟨f x.value, x.output⟩ : Logged ω β) := by
  change Logged.mk (f x.value) (x.output ++ []) = _
  rw [List.append_nil]

def tell (w : ω) : Logged ω Unit := ⟨(), [w]⟩

def mapOutput {υ : Type} (f : ω → υ) (x : Logged ω α) : Logged υ α := ⟨x.value, x.output.map f⟩

end Logged

namespace Log

def warn (text : String) : Logged Line Unit := Logged.tell ⟨.warn, text⟩
def info (text : String) : Logged Line Unit := Logged.tell ⟨.info, text⟩
def error (text : String) : Logged Line Unit := Logged.tell ⟨.error, text⟩
def trace (text : String) : Logged Line Unit := Logged.tell ⟨.trace, text⟩

end Log

end SceneLink
