import TagStamp.FileTree.Error
import TagStamp.Json.Reader
import TagStamp.Manifest.Problem
import TagStamp.Text.Utf8

namespace TagStamp

/-- Copies of files: the directory that holds them, and the absolute paths of the files. -/
structure Backup where
  directory : String
  files : List String
deriving DecidableEq, Repr

/-- Why a setting cannot stand for a path. -/
inductive NotPath
  /-- It is not a text. -/
  | kind (name : String)
  /-- It has a surrogate, first at the given position, and no octets for it. -/
  | surrogate (code position : Nat)
deriving DecidableEq, Repr

def NotPath.message : NotPath → String
  | kind name => "expected str, bytes or os.PathLike object, not " ++ name
  | surrogate code position =>
    "'utf-8' codec can't encode character '\\u" ++ String.ofList (Text.hex 4 code) ++ "' in position " ++
      toString position ++ ": surrogates not allowed"

inductive Failure
  | disk (error : DiskError)
  /-- A path holds a NUL. -/
  | nullByte
  /-- Links lead back to themselves. -/
  | linkLoop (path : String)
  /-- A path is not below the directory that it was to be named from. -/
  | notBelow (path base : String)
  | undecodable (error : Utf8.Error)
  /-- A manifest is beyond the limits of the reader. -/
  | beyond (limit : Json.Limit)
  | notPath (reason : NotPath)
  | manifestMissing (path : String)
  | manifestUnreadable (path : String) (error : DiskError)
  | manifestMalformed (path : String) (source : Text) (fault : Json.Fault) (position : Nat)
  | manifestInvalid (path : String) (problems : List Manifest.Problem)
  | backupNotMade (directory : String) (error : DiskError)
  | backupNotRestored (directory : String) (error : DiskError)
  /-- Writing stopped at a file; the backup holds all files as they were. -/
  | notWritten (path : String) (error : DiskError) (backup : Backup)
deriving DecidableEq, Repr

namespace Failure

def message : Failure → String
  | disk error => error.message
  | nullByte => "embedded null byte"
  | linkLoop path => "Symlink loop from " ++ quoted path
  | notBelow path base =>
    quoted path ++ " is not in the subpath of " ++ quoted base ++
      " OR one path is relative and the other is absolute."
  | undecodable error => error.message
  | beyond limit => limit.message
  | notPath reason => reason.message
  | manifestMissing path => "Manifest not found: " ++ path
  | manifestUnreadable path error => "Could not read manifest " ++ path ++ ": " ++ error.message
  | manifestMalformed path source fault position =>
    "Invalid JSON in " ++ path ++ ": " ++ fault.message source position
  | manifestInvalid path problems => "Invalid manifest " ++ path ++ ": " ++ Manifest.report problems
  | backupNotMade directory error =>
    "Failed to create backup in " ++ directory ++ ": " ++ error.message
  | backupNotRestored directory error =>
    "Failed to restore backup from " ++ directory ++ ": " ++ error.message
  | notWritten path error _ => "Failed to write \"" ++ path ++ "\": " ++ error.message

/-- Whether the manifest is to blame. -/
def isManifest : Failure → Bool
  | manifestMissing _ | manifestUnreadable _ _ | manifestMalformed .. | manifestInvalid _ _ => true
  | _ => false

end Failure

end TagStamp
