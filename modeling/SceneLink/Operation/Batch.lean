import SceneLink.Log
import SceneLink.Operation.Basic
import SceneLink.Text.Blank
import SceneLink.Text.Split
import SceneLink.Json.Reader

namespace SceneLink

inductive CodecError where
  | malformedBatch
  | missingField (event field : String)
  | wrongShape (event : String)
deriving DecidableEq

def CodecError.message : CodecError → String
  | malformedBatch => "malformed batch: not a list of JSON values"
  | missingField event field => s!"`{event}` operation is missing `{field}`"
  | wrongShape event => s!"`{event}` payload has the wrong shape: unexpected data"

namespace Batch

def join (texts : List String) : String :=
  String.ofList ([','].intercalate (texts.map String.toList))

def encode (ops : List Operation) : String := join (ops.map Operation.text)

-- The values of a batch, or `none` if it is malformed; a blank text has none.
def entries? (raw : String) : Option (List Json) :=
  let cs := Text.trim raw.toList
  if cs = [] then some []
  else (Json.parseChars? ('[' :: cs ++ [']'])).bind Json.items?

-- An entry that is not an operation is left out with a warning.
def keepOperations : List Json → Logged Log.Line (List Operation)
  | [] => return []
  | entry :: entries => do
    match Operation.ofJson? entry with
    | some op => return op :: (← keepOperations entries)
    | none =>
      Log.warn "Skipping malformed operation in batch: not an operation"
      keepOperations entries

def decode (raw : String) : Logged Log.Line (Except CodecError (List Operation)) :=
  match entries? raw with
  | none => return .error .malformedBatch
  | some entries => return .ok (← keepOperations entries)

end Batch

namespace Operation

-- Reads the data of an operation as a payload; absent data reads as null.
def payload {α : Type} (op : Operation) (read : Json → Option α) : Except CodecError α :=
  match read (op.data.getD .null) with
  | some value => .ok value
  | none => .error (.wrongShape op.event.name)

end Operation

end SceneLink
