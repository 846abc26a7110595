import TagStamp.Text.Quoted

namespace TagStamp

inductive FileError
  | noEntry
  | alreadyExists
  | notDirectory
  | isDirectory
  | invalid
  | nameTooLong
  | notEmpty
  | tooManyLinks
deriving DecidableEq, Repr

namespace FileError

def code : FileError → Nat
  | noEntry => 2
  | alreadyExists => 17
  | notDirectory => 20
  | isDirectory => 21
  | invalid => 22
  | nameTooLong => 36
  | notEmpty => 39
  | tooManyLinks => 40

def text : FileError → String
  | noEntry => "No such file or directory"
  | alreadyExists => "File exists"
  | notDirectory => "Not a directory"
  | isDirectory => "Is a directory"
  | invalid => "Invalid argument"
  | nameTooLong => "File name too long"
  | notEmpty => "Directory not empty"
  | tooManyLinks => "Too many levels of symbolic links"

end FileError

/-- A path as an object, the way some refusals show it. -/
def shownPath (path : String) : String :=
  "PosixPath(" ++ quoted path ++ ")"

inductive DiskError
  /-- The path was refused. -/
  | refused (error : FileError) (path : String)
  /-- The entry at the path is of the wrong kind, found only after it was opened. -/
  | misused (error : FileError) (path : String)
  /-- A copy would go to a path that asks for a directory where there is none. -/
  | noDirectory (path : String)
  /-- The working directory is no more. -/
  | unplaced
  /-- A file would be copied onto itself. -/
  | sameFile (source target : String)
  /-- A link was given where a whole directory was to be removed. -/
  | linkedTree
  /-- An outside cause; `gone` tells that it passes for a missing entry. -/
  | outside (message : String) (gone : Bool)
deriving DecidableEq, Repr

namespace DiskError

def message : DiskError → String
  | refused error path => "[Errno " ++ toString error.code ++ "] " ++ error.text ++ ": " ++ quoted path
  | misused error path => "[Errno " ++ toString error.code ++ "] " ++ error.text ++ ": " ++ shownPath path
  | noDirectory path => "Directory does not exist: " ++ path
  | unplaced => "[Errno 2] No such file or directory"
  | sameFile source target => shownPath source ++ " and " ++ shownPath target ++ " are the same file"
  | linkedTree => "Cannot call rmtree on a symbolic link"
  | outside message _ => message

/-- Whether the error says that there is nothing at the path. -/
def isNoEntry : DiskError → Bool
  | refused .noEntry _ | noDirectory _ | unplaced => true
  | outside _ gone => gone
  | _ => false

end DiskError

end TagStamp
