import SceneLink.Path.Step
import SceneLink.Text.Split

/-!
Paths and their grammar. A path is a sequence of steps with slashes between them:

    step := [tag ':'] value modifiers
    modifiers := at most one '?' and at most one '!', in either order

A step without a tag is an index if it consists of digits, and a member otherwise. A path
keeps the text it was read from, and two paths are equal if their steps are.
-/

namespace SceneLink

structure Path where
  text : String
  steps : List Step

inductive ParseError where
  | emptyStep (offset : Nat)
  | emptyTag (offset : Nat)
  | invalidIndex (offset : Nat) (value : String)
  | invalidLiteral (offset : Nat) (type : Literal) (value : String)
deriving DecidableEq

def ParseError.message : ParseError → String
  | emptyStep offset => s!"empty step at offset {offset}"
  | emptyTag offset => s!"empty type tag at offset {offset}"
  | invalidIndex offset value => s!"invalid index `{value}` at offset {offset}"
  | invalidLiteral offset type value =>
    s!"invalid {type.name} literal `{value}` at offset {offset}"

namespace Path

instance : BEq Path := ⟨fun a b => a.steps == b.steps⟩

-- The path without steps, which leads to where it starts.
def here : Path := ⟨"", []⟩

def dropFlag (flag : Char) (reversed : List Char) : Bool × List Char :=
  match reversed with
  | c :: rest => if c = flag then (true, rest) else (false, c :: rest)
  | [] => (false, [])

-- Takes the modifiers off the end of a token: what is left of it, whether it is conditional, and
-- whether it is excited.
def splitModifiers (token : List Char) : List Char × Bool × Bool :=
  let (conditional, rest) := dropFlag '?' token.reverse
  let (excited, rest) := dropFlag '!' rest
  let (late, rest) := if conditional then (false, rest) else dropFlag '?' rest
  (rest.reverse, conditional || late, excited)

def splitTag (offset : Nat) (body : List Char) : Except ParseError (StepKind × String) :=
  match Text.splitOnce? ':' body with
  | none => .ok (if body.all Text.isDigit then .index else .member, String.ofList body)
  | some ([], _) => .error (.emptyTag offset)
  | some (tag, value) => .ok (StepKind.ofTag (String.ofList tag), String.ofList value)

-- Whether the value of a step fits its kind; an evaluated value is checked when it is evaluated.
def check (offset : Nat) (step : Step) : Except ParseError Unit :=
  if step.excited then .ok ()
  else match step.kind with
    | .index => match step.index? with
      | some _ => .ok ()
      | none => .error (.invalidIndex offset step.value)
    | .literal type => match type.read? step.value with
      | some _ => .ok ()
      | none => .error (.invalidLiteral offset type step.value)
    | _ => .ok ()

def parseStep (offset : Nat) (token : List Char) : Except ParseError Step := do
  let (body, conditional, excited) := splitModifiers token
  if body = [] then throw (.emptyStep offset)
  let (kind, value) ← splitTag offset body
  let step : Step := { kind, value, conditional, excited }
  check offset step
  return step

-- Offsets count bytes of the text, a separator being one byte.
def parseSteps (offset : Nat) : List (List Char) → Except ParseError (List Step)
  | [] => .ok []
  | token :: tokens => do
    let step ← parseStep offset token
    let steps ← parseSteps (offset + Text.byteLength token + 1) tokens
    return step :: steps

-- Reads a path; the empty text is the path without steps.
def parse (text : String) : Except ParseError Path :=
  if text = "" then .ok here
  else (parseSteps 0 (text.toList.splitOn '/')).map fun steps => ⟨text, steps⟩

-- Reads named paths in the order of their names, up to the first that does not parse.
def parseAll (texts : Dict String String) : Except ParseError (Dict String Path) :=
  texts.mapM fun (name, text) => do
    let path ← parse text
    return (name, path)

end Path

end SceneLink
