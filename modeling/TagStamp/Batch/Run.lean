import TagStamp.Backup
import TagStamp.Diff.Patch
import TagStamp.Json.Value
import TagStamp.Stamp.Pass

namespace TagStamp.Batch

/-- A tag to identify, and the file it is in. -/
structure Request where
  file : String
  target : Stamp.Target
deriving DecidableEq, Repr

/-- What a batch may do. Files are written only with `write` and without `dryRun`. The backup directory is
kept as it was given until there is something to back up. -/
structure Options where
  dryRun : Bool := true
  write : Bool := false
  backupDirectory : Json := .text Backup.defaultDirectory

namespace Options

def writesFiles (o : Options) : Bool :=
  o.write && !o.dryRun

/-- Settings that are no object, by their kind. -/
structure Unreadable where
  kind : String
deriving DecidableEq, Repr

def Unreadable.message (u : Unreadable) : String :=
  "'" ++ u.kind ++ "' object has no attribute 'get'"

/-- Options as settings give them. What is missing or empty has its default. -/
def ofJson (settings : Json) : Except Unreadable Options :=
  if !settings.isTruthy then .ok {}
  else match settings with
    | .object _ =>
      let directory := (settings.get? "backup_dir").filter Json.isTruthy
      .ok
        { dryRun := ((settings.get? "dry_run").map Json.isTruthy).getD true
          write := ((settings.get? "write").map Json.isTruthy).getD false
          backupDirectory := directory.getD (.text Backup.defaultDirectory) }
    | other => .error ⟨other.kind⟩

end Options

/-- Adds a target to the group of its file, or starts a group for it at the end. -/
def addTo (groups : List (String × List Stamp.Target)) (r : Request) :
    List (String × List Stamp.Target) :=
  match groups with
  | [] => [(r.file, [r.target])]
  | (file, targets) :: rest =>
    if file = r.file then (file, targets ++ [r.target]) :: rest else (file, targets) :: addTo rest r

/-- The targets of each file, files in the order of their first appearance. -/
def groupByFile (requests : List Request) : List (String × List Stamp.Target) :=
  requests.foldl addTo []

structure FileReport where
  file : String
  applied : Nat
  skipped : Nat
  patch : Option Diff.FilePatch
deriving DecidableEq, Repr

structure Report where
  files : List FileReport := []
  totalApplied : Nat := 0
  totalSkipped : Nat := 0
  backup : Option Backup := none
deriving DecidableEq, Repr

/-- A count summed over all files. -/
def total (count : FileReport → Nat) (files : List FileReport) : Nat :=
  files.foldr (fun file sum => count file + sum) 0

def Report.patches (r : Report) : List Diff.FilePatch :=
  r.files.filterMap FileReport.patch

/-- A path as diffs show it: from the working directory if it is below that, else as it was given. -/
def displayPath (file : String) : Action String := do
  let path := Path.parse file
  let shown ← tryCatch
    (do
      let resolved ← Action.resolve path
      return resolved.relativeTo? (.absolute (← Action.workingDirectory)))
    fun failure => if failure = .nullByte then return none else throw failure
  return (shown.getD path).text

/-- The text of a source file, or why it has none. -/
def readSource (file : String) : Action (Except String Text) :=
  Action.onDisk
    (do
      Action.checkPath file
      if let some cause := (← get).faults.read file then throw (.disk cause.error)
      match Utf8.decode (← Action.readFile file) with
      | .ok text => return .ok text
      | .error error => return .error error.message)
    fun error => return .error error.message

/-- Annotates one file in memory. A file that cannot be read is reported and left out. -/
def annotate (group : String × List Stamp.Target) : Action (Option FileReport) := do
  let (file, targets) := group
  match ← readSource file with
  | .error reason =>
    Action.log .warning ("Could not read \"" ++ file ++ "\", skipping: " ++ reason)
    return none
  | .ok source =>
    let result := Stamp.run source targets
    result.log.forM fun entry => Action.say (.log entry)
    let patch ← if result.modified then
        pure (some (Diff.FilePatch.of (← displayPath file) source result.text))
      else pure none
    Action.log .debug (file ++ ": applied=" ++ toString result.applied ++ " skipped=" ++
      toString result.skipped)
    return some { file, applied := result.applied, skipped := result.skipped, patch }

/-- Writes the new text of a file. -/
def writeSource (file : String) (text : Text) : Action Unit := do
  if let some cause := (← get).faults.write file then Action.interrupt cause file
  Action.writeFile file (Utf8.encode text)

/-- Backs up all files that are about to change, then writes them. -/
def commit (pending : List (String × Text)) (directory : Json) : Action Backup := do
  let backup ← Backup.create (pending.map Prod.fst) directory
  pending.forM fun (file, text) =>
    Action.onDisk (writeSource file text) fun error => throw (.notWritten file error backup)
  Action.log .info ("Wrote " ++ toString pending.length ++ " annotated file(s)")
  return backup

/-- The new texts of the files that change. -/
def pendingWrites (files : List FileReport) : List (String × Text) :=
  files.filterMap fun f => f.patch.map fun patch => (f.file, patch.new)

def run (requests : List Request) (options : Options) : Action Report := do
  let files := (← (groupByFile requests).mapM annotate).filterMap id
  let pending := pendingWrites files
  let backup ← if options.writesFiles && !pending.isEmpty then
      pure (some (← commit pending options.backupDirectory))
    else pure none
  return { files
           totalApplied := total FileReport.applied files
           totalSkipped := total FileReport.skipped files
           backup }

end TagStamp.Batch
