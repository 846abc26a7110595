import TagStamp.Diff.Hunk

namespace TagStamp.Diff

def Hunk.header (h : Hunk) : Text :=
  ("@@ -" ++ toString h.oldStart ++ "," ++ toString h.oldCount ++ " +" ++
    toString h.newStart ++ "," ++ toString h.newCount ++ " @@").toList

def Hunk.lines (h : Hunk) : List Text :=
  h.header :: h.body

/-- The lines of the diff between two lists of lines. -/
def diffLines (path : Text) (old new : List Text) : List Text :=
  match hunks (script old new) with
  | [] => []
  | shown => ("--- a/".toList ++ path) :: ("+++ b/".toList ++ path) :: shown.flatMap Hunk.lines

def unified (path : Text) (old new : List Text) : Text :=
  Text.unlines (diffLines path old new)

/-- A file before and after, with the diff between the two. -/
structure FilePatch where
  path : String
  old : Text
  new : Text
  diff : Text
deriving DecidableEq, Repr

def FilePatch.of (path : String) (old new : Text) : FilePatch :=
  { path, old, new
    diff := unified path.toList (Text.lines old) (Text.lines new) }

end TagStamp.Diff
