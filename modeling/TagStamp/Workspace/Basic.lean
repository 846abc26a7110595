import TagStamp.Failure
import TagStamp.FileTree.Standpoint
import TagStamp.Log

namespace TagStamp

/-- What is said, in order: log entries, and text for the two standard channels. -/
inductive Output
  | log (entry : Log.Entry)
  | out (text : String)
  | err (text : String)
deriving DecidableEq, Repr

/-- An outside cause that stops an operation. `gone` tells that it passes for a missing entry. -/
structure Obstacle where
  message : String
  gone : Bool := false
deriving DecidableEq, Repr

def Obstacle.error (cause : Obstacle) : DiskError :=
  .outside cause.message cause.gone

/-- An outside cause that stops an operation on a file, maybe after something else was left in the file. -/
structure Interruption extends Obstacle where
  residue : Option (List UInt8) := none
deriving DecidableEq, Repr

/-- Outside causes, by the path that an operation is about: the directory to make, the file to copy to, to
write or to read. -/
structure Faults where
  makeDirectory : String → Option Obstacle := fun _ => none
  copy : String → Option Interruption := fun _ => none
  write : String → Option Interruption := fun _ => none
  read : String → Option Obstacle := fun _ => none
  readManifest : Option Obstacle := none
  removeTree : Option DiskError := none
  /-- What is gone from a directory, named from there, when its removal is stopped. -/
  removed : List Location := []

/-- What a run works on. `transcript` is what it has said, and `nesting` how deep the arrays and objects of a
manifest may be nested, which depends on the stack that is left to the reader. -/
structure Workspace where
  tree : FileTree
  directory : Standpoint
  faults : Faults := {}
  nesting : Nat := 991
  transcript : List Output := []

namespace Workspace

/-- Removes everything strictly below a place. -/
def clear (w : Workspace) (place : Location) : Workspace :=
  { w with tree := w.tree.clear place, directory := w.directory.afterClear place }

/-- Removes a place and everything below it. -/
def erase (w : Workspace) (place : Location) : Workspace :=
  { w with tree := w.tree.erase place, directory := w.directory.afterErase place }

/-- Removes some of what is strictly below a place, each entry with everything below it. -/
def thin (w : Workspace) (place : Location) (below : List Location) : Workspace :=
  (below.filter (· ≠ [])).foldl (fun w rest => w.erase (place ++ rest)) w

end Workspace

/-- What an action has changed before it fails stays changed. -/
abbrev Action := EStateM Failure Workspace

namespace Action

def say (output : Output) : Action Unit :=
  modify fun w => { w with transcript := w.transcript ++ [output] }

def log (level : Log.Level) (message : CodeString) : Action Unit :=
  say (.log ⟨level, message⟩)

def setTree (tree : FileTree) : Action Unit :=
  modify fun w => { w with tree }

def ofExcept {α : Type} : Except Failure α → Action α
  | .ok value => pure value
  | .error failure => throw failure

def refuse {α : Type} (error : FileError) (path : String) : Action α :=
  throw (.disk (.refused error path))

/-- Runs an action and hands a disk error to `handler`; other failures pass. -/
def onDisk {α : Type} (action : Action α) (handler : DiskError → Action α) : Action α :=
  tryCatch action fun failure =>
    match failure with
    | .disk error => handler error
    | other => throw other

end Action

end TagStamp
