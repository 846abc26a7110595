import TagStamp.FileTree.Resolve
import TagStamp.Workspace.Basic

namespace TagStamp.Action

/-- Refuses a path that no file system takes. -/
def checkPath (path : String) : Action Unit :=
  if path.toList.contains '\x00' then throw .nullByte else pure ()

def look (aim : Aim) (path : String) : Action Walk := do
  let w ← get
  return w.tree.locate w.directory aim path

/-- The entry that a path leads to, if it leads anywhere. A name that is too long is an error even here. -/
def probe (path : String) : Action (Option Entry) := do
  if path.toList.contains '\x00' then return none
  match ← look .target path with
  | .found _ entry => return some entry
  | .free _ _ => return none
  | .refused .nameTooLong => refuse .nameTooLong path
  | .refused _ => return none

def isFile (path : String) : Action Bool := do
  match ← probe path with
  | some (.file _) => return true
  | _ => return false

def isDirectory (path : String) : Action Bool := do
  return (← probe path) == some .directory

def readFile (path : String) : Action (List UInt8) := do
  checkPath path
  match ← look .target path with
  | .found _ (.file content) => return content
  | .found _ .directory => refuse .isDirectory path
  | .found _ (.link _) => refuse .tooManyLinks path
  | .free _ _ => refuse .noEntry path
  | .refused error => refuse error path

/-- Gives a file its content; the file is created where there is none. -/
def writeFile (path : String) (content : List UInt8) : Action Unit := do
  checkPath path
  let tree := (← get).tree
  match ← look .writing path with
  | .found here (.file _) => setTree (tree.set here.place (.file content))
  | .found _ .directory => refuse .isDirectory path
  | .found _ (.link _) => refuse .tooManyLinks path
  | .free directory name => setTree (tree.set (directory ++ [name]) (.file content))
  | .refused error => refuse error path

/-- Stops for an outside cause, after the file was given what the cause leaves in it. -/
def interrupt (cause : Interruption) (path : String) : Action Unit := do
  if let some residue := cause.residue then writeFile path residue
  throw (.disk cause.error)

/-- Creates a directory in a directory that exists. -/
def makeDirectory (path : String) : Action Unit := do
  checkPath path
  let w ← get
  if let some cause := w.faults.makeDirectory path then
    throw (.disk cause.error)
  match ← look .entry path with
  | .found _ _ => refuse .alreadyExists path
  | .free directory name => setTree (w.tree.set (directory ++ [name]) .directory)
  | .refused error => refuse error path

/-- An error is none if the directory is there all the same. -/
def unlessDirectory (path : String) (error : DiskError) : Action Unit := do
  if ← isDirectory path then pure () else throw (.disk error)

/-- Creates a directory, and first the directories above it, as far as they are missing. -/
def makeDirectoriesFrom : Nat → Path → Action Unit
  | 0, path => onDisk (makeDirectory path.text) fun error =>
    if error.isNoEntry then throw (.disk error) else unlessDirectory path.text error
  | above + 1, path => onDisk (makeDirectory path.text) fun error =>
    if error.isNoEntry then do
      makeDirectoriesFrom above path.parent
      onDisk (makeDirectory path.text) fun error =>
        if error.isNoEntry then throw (.disk error) else unlessDirectory path.text error
    else unlessDirectory path.text error

def makeDirectories (path : Path) : Action Unit :=
  makeDirectoriesFrom path.names.length path

/-- Whether two paths lead to one entry. -/
def sameEntry (a b : String) : Action Bool := do
  match ← look .target a, ← look .target b with
  | .found here _, .found there _ => return here == there
  | _, _ => return false

/-- Writes a copy. Where a directory is asked for and there is none, the refusal says so. -/
def writeCopy (path : String) (content : List UInt8) : Action Unit :=
  onDisk (writeFile path content) fun error => do
    match error, ← look .target path with
    | .refused .isDirectory _, .found _ _ => throw (.disk error)
    | .refused .isDirectory _, _ => throw (.disk (.noDirectory path))
    | _, _ => throw (.disk error)

/-- Copies the content of a file. -/
def copyFile (source target : Path) : Action Unit := do
  let cause := (← get).faults.copy target.text
  if let some ⟨obstacle, none⟩ := cause then throw (.disk obstacle.error)
  checkPath source.text
  checkPath target.text
  if ← sameEntry source.text target.text then
    throw (.disk (.sameFile source.text target.text))
  let content ← readFile source.text
  if let some cause := cause then interrupt cause target.text
  writeCopy target.text content

/-- Removes a directory that is empty. The names for a directory itself and for the one above it are
refused. -/
def removeDirectory (path : Path) : Action Unit := do
  match path.names.getLast? with
  | none => refuse .invalid path.text
  | some ".." =>
    match ← look .target path.parent.text with
    | .found _ _ => refuse .notEmpty path.text
    | .free _ _ => refuse .noEntry path.text
    | .refused error => refuse error path.text
  | some _ =>
    match ← look .entry path.text with
    | .found here _ => modify fun w => w.erase here.place
    | .free _ _ => refuse .noEntry path.text
    | .refused error => refuse error path.text

/-- Stops a removal for an outside cause, when some of what was in the directory is gone. -/
def stopRemoval (error : DiskError) (path : Path) : Action Unit := do
  let removed := (← get).faults.removed
  if let .found here .directory ← look .entry path.text then
    if !here.isLost then modify fun w => w.thin here.place removed
  throw (.disk error)

/-- Removes a directory with everything in it. The directory itself is looked up again after it has been
emptied, which fails if the path leads through something that was in it. -/
def removeTree (path : Path) : Action Unit := do
  match (← get).faults.removeTree with
  | some error => stopRemoval error path
  | none =>
    checkPath path.text
    match ← look .entry path.text with
    | .found _ (.link _) => throw (.disk .linkedTree)
    | .found _ (.file _) => throw (.disk (.misused .notDirectory path.text))
    | .found here .directory =>
      if !here.isLost then modify fun w => w.clear here.place
      removeDirectory path
    | .free _ _ => refuse .noEntry path.text
    | .refused error => refuse error path.text

/-- The working directory, as long as it was not removed. -/
def workingDirectory : Action Location := do
  let w ← get
  if w.directory.isLost then throw (.disk .unplaced) else return w.directory.place

/-- The absolute path that a path means, with all links followed. -/
def resolve (path : Path) : Action Path := do
  let w ← get
  match w.tree.search w.directory path with
  | .nullByte => throw .nullByte
  | .reached meant | .looped meant =>
    let base ← if meant.anchor = .relative then workingDirectory else pure []
    let resolved := meant.normal base
    checkPath resolved.text
    match ← look .target resolved.text with
    | .refused .tooManyLinks => throw (.linkLoop resolved.text)
    | _ => return resolved

end TagStamp.Action
