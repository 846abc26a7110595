import TagStamp.Diff.Script

namespace TagStamp.Diff

/-- Unchanged lines shown before and after the edits of a hunk. -/
def context : Nat := 3

/-- The edits of a script that stand close together, with the unchanged lines around them. -/
structure Hunk where
  oldStart : Nat
  oldCount : Nat
  newStart : Nat
  newCount : Nat
  body : List Text
deriving DecidableEq, Repr

/-- Extends the group from `first` to `last` over the indices that follow, and starts a new group where
the distance exceeds twice the context. -/
def groupsFrom (first last : Nat) : List Nat → List (Nat × Nat)
  | [] => [(first, last)]
  | index :: rest =>
    if index - last ≤ 2 * context then groupsFrom first index rest
    else (first, last) :: groupsFrom index index rest

/-- Groups of neighbouring indices of an increasing list, each given by its first and last index. -/
def groups : List Nat → List (Nat × Nat)
  | [] => []
  | index :: rest => groupsFrom index index rest

/-- Indices of the records that are edits. -/
def editIndices (changes : List Change) : List Nat :=
  changes.zipIdx.filterMap fun record => if record.1.isEdit then some record.2 else none

def Change.render : Change → Text
  | .same _ _ line => ' ' :: line
  | .removed _ line => '-' :: line
  | .added _ line => '+' :: line

/-- The line, counted from one, at which a run of records starts on one side: that of its first record if
it has a line there, else the line after the last one before it. -/
def startOn (side : Change → Option Nat) (before : List Change) (records : List Change) : Nat :=
  match (records.head?.bind side) with
  | some k => k + 1
  | none =>
    match before.reverse.findSome? side with
    | some k => k + 2
    | none => 1

/-- The hunk for the edits from record `first` to record `last`. -/
def Hunk.of (changes : List Change) (first last : Nat) : Hunk :=
  let before := changes.take (first - context)
  let records := (changes.take (last + context + 1)).drop (first - context)
  { oldStart := startOn Change.old? before records
    oldCount := records.countP fun c => c.old?.isSome
    newStart := startOn Change.new? before records
    newCount := records.countP fun c => c.new?.isSome
    body := records.map Change.render }

def hunks (changes : List Change) : List Hunk :=
  (groups (editIndices changes)).map fun group => Hunk.of changes group.1 group.2

end TagStamp.Diff
