namespace SceneLink.Text

def splitOnce? (sep : Char) : List Char → Option (List Char × List Char)
  | [] => none
  | c :: cs =>
    if c = sep then some ([], cs)
    else (splitOnce? sep cs).map fun (before, after) => (c :: before, after)

-- The text after the last separator.
def lastPiece (sep : Char) (cs : List Char) : List Char := (cs.splitOn sep).getLastD []

-- Puts `text` in place of every pair of braces that hold nothing.
def fillHoles (text : List Char) : List Char → List Char
  | [] => []
  | '{' :: '}' :: cs => text ++ fillHoles text cs
  | c :: cs => c :: fillHoles text cs

-- Length in bytes of the UTF-8 encoding.
def byteLength (cs : List Char) : Nat := cs.foldr (fun c n => c.utf8Size + n) 0

end SceneLink.Text
