import SceneLink.Operation.Payload

namespace SceneLink

-- Issues identifiers, and counts all that it issued, of whatever kind. Below `2 ^ 64` the count is
-- that of a word of 64 bits.
structure Issuer where
  issued : Nat := 0

namespace Issuer

def isPathMark (c : Char) : Bool := c = '/' || c = ':' || c = '?' || c = '!'

def sanitize (kind : String) : String :=
  if kind = "" then Template.defaultKind
  else String.ofList (kind.toList.map fun c => if isPathMark c then '_' else c)

def idFor (kind : String) (n : Nat) : String :=
  sanitize kind ++ "_" ++ String.ofList (Nat.toDigits 10 n)

def issue (issuer : Issuer) (kind : String) : String × Issuer :=
  (idFor kind issuer.issued, ⟨issuer.issued + 1⟩)

def issueAll (issuer : Issuer) : List String → List String × Issuer
  | [] => ([], issuer)
  | kind :: kinds =>
    let (id, issuer) := issuer.issue kind
    let (ids, issuer) := issuer.issueAll kinds
    (id :: ids, issuer)

end Issuer

end SceneLink
