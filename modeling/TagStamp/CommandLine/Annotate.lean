import TagStamp.Batch.ReportJson
import TagStamp.CommandLine.Arguments
import TagStamp.Json.Writer
import TagStamp.Manifest.Load

namespace TagStamp.CommandLine

/-- A line for standard output. -/
def print (text : String) : Action Unit :=
  Action.say (.out (text ++ "\n"))

/-- A line for standard error. -/
def printError (text : String) : Action Unit :=
  Action.say (.err (text ++ "\n"))

/-- The elements of a manifest, their files named from the working directory. -/
def loadElements (manifest : Path) : Action (List Manifest.Element) := do
  let loaded ← Manifest.load manifest
  Action.log .debug
    ("Loaded " ++ toString loaded.elements.length ++ " element(s) from " ++ manifest.text)
  Manifest.resolveElements (.absolute (← Action.workingDirectory)) loaded.elements

def reportManifest (manifest : Path) (failure : Failure) : Action Unit := do
  printError ("Error: Failed to load manifest \"" ++ manifest.text ++ "\": " ++ failure.message)
  printError "Generate a manifest by scanning and naming first, or specify --manifest <path>."

def printJson (report : Batch.Report) : Action Unit :=
  print (Json.render .indented report.toJson)

/-- Diffs with an empty line between them. -/
def printPatches : List Diff.FilePatch → Action Unit
  | [] => pure ()
  | [patch] => print (String.ofList patch.diff)
  | patch :: rest => do
    print (String.ofList patch.diff)
    print ""
    printPatches rest

def reportDryRun (report : Batch.Report) : Action Unit := do
  if report.patches.isEmpty then
    print "No changes needed (all annotations already present)."
  else
    printPatches report.patches
    printError ("\nDry run: " ++ toString report.totalApplied ++
      " annotation(s) would be applied across " ++ toString report.patches.length ++ " file(s).")
    printError "Run with --write to apply changes."

def reportWrite (report : Batch.Report) : Action Unit := do
  match report.backup with
  | none => print "No files need modification (all annotations already present)."
  | some backup =>
    printError ("Annotated " ++ toString report.patches.length ++ " file(s)")
    printError ("  Annotations applied: " ++ toString report.totalApplied)
    printError ("  Annotations skipped: " ++ toString report.totalSkipped)
    printError ("  Backup: " ++ backup.directory)

/-- Puts all files back and discards the backup; a backup that cannot be restored is kept. -/
def recover (backup : Backup) : Action Unit := do
  let restored ← tryCatch (do backup.restore; return true) fun failure =>
    match failure with
    | .backupNotRestored .. => do
      printError ("ERROR: " ++ failure.message)
      printError ("  Original files remain in " ++ backup.directory)
      return false
    | other => throw other
  if restored then
    printError "Restored original files from backup."
    backup.discard

/-- What is done about a failure of the batch: the files are put back if some of them may be written. -/
def rescue : Failure → Action (Option Batch.Report)
  | failure@(.notWritten _ _ backup) => do
    printError ("Error: " ++ failure.message)
    recover backup
    return none
  | failure@(.backupNotMade ..) => do
    printError ("Error: " ++ failure.message)
    printError "No files were modified."
    return none
  | other => throw other

/-- The requests of elements. -/
def requestsOf (elements : List Manifest.Element) : List Batch.Request :=
  elements.map fun e => ⟨e.filePath, e.target⟩

/-- Runs the batch. Without a result the files are as they were, as far as that can be done. -/
def runBatch (elements : List Manifest.Element) (options : Batch.Options) :
    Action (Option Batch.Report) :=
  tryCatch (do return some (← Batch.run (requestsOf elements) options)) rescue

/-- Reports what a batch did, and discards its backup. In JSON the backup is discarded before the report,
which then does not name it. -/
def finish (args : Arguments) (options : Batch.Options) (report : Batch.Report) :
    Action Unit := do
  if args.json then
    if let some backup := report.backup then backup.discard
    printJson { report with backup := none }
  else
    if options.writesFiles then reportWrite report else reportDryRun report
    if let some backup := report.backup then backup.discard

/-- The elements to annotate, or nothing if the manifest does not load. -/
def elements? (manifest : Path) : Action (Option (List Manifest.Element)) :=
  tryCatch (do return some (← loadElements manifest)) fun failure =>
    if failure.isManifest then do
      reportManifest manifest failure
      return none
    else throw failure

/-- What was given for a path, as a value: nothing counts as an empty list. -/
def pathSetting (given : Option String) : Json :=
  (given.map Json.text).getD (.array [])

/-- The path of the manifest. -/
def manifestPath (args : Arguments) : Except Failure Path :=
  match args.manifest with
  | some path => .ok (.parse path)
  | none => .error (.notPath (.kind (pathSetting none).kind))

/-- Runs the command and returns its exit code. -/
def annotate (args : Arguments) : Action Nat := do
  let manifest ← Action.resolve (← Action.ofExcept (manifestPath args))
  match ← elements? manifest with
  | none => return 1
  | some [] =>
    if args.json then printJson {} else print "No elements to annotate."
    return 0
  | some elements =>
    let options : Batch.Options :=
      { dryRun := !args.write, write := args.write, backupDirectory := pathSetting args.backupDirectory }
    match ← runBatch elements options with
    | none => return 1
    | some report =>
      finish args options report
      return 0

end TagStamp.CommandLine
