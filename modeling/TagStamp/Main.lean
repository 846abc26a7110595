import TagStamp.CommandLine.Execution

namespace TagStamp.Host

/-- What stands at a place of the disk. A link is shown with the place it finally leads to; one that leads
nowhere counts as nothing. -/
def look (place : Location) : IO (Option Entry) := do
  let path := (Path.absolute place).text
  match ← (IO.FS.realPath path).toBaseIO with
  | .error _ => return none
  | .ok real =>
    if real.toString ≠ path then return some (.link real.toString)
    match ← (IO.FS.readBinFile path).toBaseIO with
    | .ok content => return some (.file content.toList)
    | .error _ => return some .directory

/-- Reads what stands along names, from a place that is read already. -/
def readAlong (tree : FileTree) (place : Location) : List String → IO FileTree
  | [] => return tree
  | name :: rest =>
    if name = ".." then readAlong tree place.dropLast rest
    else do
      let here := place ++ [name]
      match ← look here with
      | none => return tree
      | some (.link target) =>
        let real := (Path.parse target).names
        let some entry ← look real | return tree
        readAlong ((tree.set here (.link target)).add real entry) real rest
      | some entry => readAlong (tree.set here entry) here rest

/-- Reads a path as seen from a directory. -/
def readPath (directory : Location) (tree : FileTree) (path : Path) : IO FileTree :=
  readAlong tree [] ((Path.absolute directory).join path).names

/-- Reads everything below a place. -/
partial def readBelow (tree : FileTree) (place : Location) : IO FileTree := do
  if !tree.isDirectory place then return tree
  let names := (← (← IO.FS.realPath (Path.absolute place).text).readDir).toList.map (·.fileName)
  names.foldlM (fun tree name => do readBelow (← readAlong tree place [name]) (place ++ [name])) tree

/-- The part of the disk that a run can see: its manifest, the files that are named there, and for a write
run the backup directory. -/
def snapshot (directory : Location) (args : CommandLine.Arguments) : IO FileTree := do
  let tree ← readAlong {} [] directory
  let .ok path := CommandLine.manifestPath args | return tree
  let tree ← readPath directory tree path
  let files := match (Manifest.load path).run { tree, directory := ⟨directory, 0⟩ } with
    | .ok manifest _ => manifest.elements.map fun (e : Manifest.Element) => Path.parse e.filePath
    | .error _ _ => []
  let tree ← files.foldlM (readPath directory) tree
  let .ok backup := Backup.chosenDirectory (CommandLine.pathSetting args.backupDirectory) | return tree
  if !args.write then return tree
  let tree ← readPath directory tree backup
  match (Action.resolve backup).run { tree, directory := ⟨directory, 0⟩ } with
  | .ok root _ => readBelow tree root.names
  | .error _ _ => return tree

/-- Puts an entry on the disk. A run makes no links, so there is none to put. -/
def put (place : Location) : Entry → IO Unit
  | .directory => IO.FS.createDir (Path.absolute place).text
  | .file content => IO.FS.writeBinFile (Path.absolute place).text ⟨content.toArray⟩
  | .link _ => pure ()

def remove (place : Location) : Entry → IO Unit
  | .directory => IO.FS.removeDir (Path.absolute place).text
  | _ => IO.FS.removeFile (Path.absolute place).text

/-- What turns a disk that agrees with one tree into one that agrees with another. Directories are made
before what is in them, and removed after it. -/
def steps (before after : FileTree) : List (IO Unit) :=
  let added := after.entries.filter fun e => before.get? e.1 ≠ some e.2
  let removed := before.entries.filter fun e => (after.get? e.1).isNone
  (added.mergeSort fun a b => a.1.length ≤ b.1.length).map (fun e => put e.1 e.2) ++
    (removed.mergeSort fun a b => b.1.length ≤ a.1.length).map (fun e => remove e.1 e.2)

/-- Changes the disk. If a step fails, the disk is put back as far as it can be. -/
def commit (before after : FileTree) : IO Unit :=
  tryCatch ((steps before after).forM id) fun error => do
    (steps after before).forM fun step => tryCatch step fun _ => pure ()
    throw error

/-- Shows what a run has said, and returns its exit code. -/
def finish (run : CommandLine.Execution) : IO UInt32 := do
  IO.print run.stdout
  IO.eprint run.stderr.escaped
  match run.outcome with
  | .ok code => return code.toUInt32
  | .error failure =>
    IO.eprintln failure.message
    return 1

end TagStamp.Host

open TagStamp in
def main (argv : List String) : IO UInt32 := do
  let directory := (Path.parse (← IO.currentDir).toString).names
  let tree ← match CommandLine.parseArguments argv with
    | .ok args => Host.snapshot directory args
    | .error _ => pure {}
  let run := CommandLine.execute argv { tree, directory := ⟨directory, 0⟩ }
  Host.commit tree run.workspace.tree
  Host.finish run
