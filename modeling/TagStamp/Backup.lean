import TagStamp.Workspace.Disk

namespace TagStamp.Backup

/-- The directory for backups when none is chosen. -/
def defaultDirectory : String := ".uic-backup"

/-- The backup directory that a setting asks for: the default if the setting is empty. Only a text can be
a path, and only one without surrogates. -/
def chosenDirectory (setting : Json) : Except Failure Path :=
  if !setting.isTruthy then .ok (.parse defaultDirectory)
  else match setting with
    | .string (.text directory) => .ok (.parse directory)
    | .string (.unpaired codes) =>
      let position := codes.findIdx CodeString.isSurrogate
      .error (.notPath (.surrogate (codes.getD position 0) position))
    | other => .error (.notPath (.kind other.kind))

/-- The deepest directory above the given files. -/
def ancestor (files : List String) : Action Path := do
  match files with
  | [] => return .absolute (← Action.workingDirectory)
  | _ => return commonAncestor (.absolute []) (files.map Path.parse)

/-- What leads from a directory to a file below it. -/
def below (base file : Path) : Action Path :=
  match file.relativeTo? base with
  | some relative => pure relative
  | none => throw (.notBelow file.text base.bareText)

/-- Each file with its path below the common ancestor. -/
def layout (files : List String) : Action (List (Path × Path)) := do
  let base ← ancestor files
  (files.map Path.parse).mapM fun file => return (file, ← below base file)

/-- Copies one file into the backup directory. -/
def save (root : Path) (file : Path × Path) : Action Unit := do
  let copy := root.join file.2
  Action.makeDirectories copy.parent
  Action.copyFile file.1 copy

/-- Makes a backup of the given files. Files that are named twice are copied once. -/
def create (paths : List String) (setting : Json) : Action Backup := do
  let root ← Action.resolve (← Action.ofExcept (chosenDirectory setting))
  let files := ((← paths.mapM fun path => Action.resolve (.parse path)).map Path.text).eraseDups
  Action.onDisk
    (do
      Action.makeDirectories root
      (← layout files).forM (save root))
    fun error => throw (.backupNotMade root.text error)
  Action.log .info ("Backed up " ++ toString files.length ++ " file(s) to " ++ root.text)
  return ⟨root.text, files⟩

/-- Copies one file back from the backup directory. -/
def putBack (root : Path) (file : Path × Path) : Action Unit := do
  Action.makeDirectories file.1.parent
  Action.copyFile (root.join file.2) file.1

/-- Copies all files back to where they were. -/
def restore (backup : Backup) : Action Unit := do
  let root := Path.parse backup.directory
  Action.onDisk
    (do (← layout backup.files).forM (putBack root))
    fun error => throw (.backupNotRestored root.text error)
  Action.log .info ("Restored " ++ toString backup.files.length ++ " file(s) from " ++ root.text)

/-- Removes the backup directory. That it is gone already is no error, and any other reason why it cannot
be removed is only reported. -/
def discard (backup : Backup) : Action Unit := do
  let root := Path.parse backup.directory
  if (← Action.probe root.text).isNone then
    Action.log .debug ("Backup " ++ root.text ++ " already gone")
  else
    Action.onDisk
      (do
        Action.removeTree root
        Action.log .info ("Removed backup " ++ root.text))
      fun error =>
        if error.isNoEntry then pure ()
        else Action.log .warning ("Could not remove backup " ++ root.text ++ ": " ++ error.message)

end TagStamp.Backup
