import TagStamp.Proofs.CommandLine.Execution

namespace TagStamp.CommandLine

open TagStamp.Action Batch

-- unfolding it would run the action
seal Action.Ends

/-- The content that a file had is in the file, or else in its copy. The copy is below the backup directory
where the file is below the common ancestor of all files that were to be written. -/
def Keeps (args : Arguments) (w w' : Workspace) (file : Location) : Prop :=
  ∀ octets, w.tree.content? file = some octets → w'.tree.content? file = some octets ∨
    ∃ report rest, dryReport args w = some report ∧ file ∈ places (pendingWrites report.files) ∧
      file = Backup.base (places (pendingWrites report.files)) ++ rest ∧
      w'.tree.content? (args.backupPlace w.directory.place ++ rest) = some octets

variable {w w' : Workspace} {args : Arguments}

/-- A run that fails leaves all files as they were, or keeps their copies; then it does not claim the former,
and its backup was made and cannot be restored. -/
theorem Outcome.keeps (h : Outcome args w 1 w') (hw : w.Plain)
    (hfree : w.tree.get? (args.backupPlace w.directory.place) = none) :
    (∀ file octets, w.tree.content? file = some octets → w'.tree.content? file = some octets) ∨
      (∀ file, Keeps args w w' file) ∧ ¬ Reassures w' ∧ ¬ Retracts args w := by
  cases h with
  | unloaded htree => exact .inl fun file octets hoctets => by rwa [htree]
  | @failed _ _ files hloads _ hfallback =>
    have houtside {file : Location} {octets : List UInt8} (hoctets : w.tree.content? file = some octets) :=
      hw.tree.not_prefix_of_content hfree hoctets
    cases hfallback fun file hfile => hloads.not_below hw.sound hw.tree hfree hfile with
    | intact hintact => exact .inl fun file octets hoctets => (hintact file (houtside hoctets)).trans hoctets
    | kept hothers hcopies hsilent hlasting =>
      refine .inr ⟨fun file octets hoctets => ?_, hsilent, hlasting⟩
      by_cases hfile : file ∈ places (pendingWrites files)
      · have hbase := List.prefix_iff_eq_append.1 (Backup.base_prefix_of_mem hfile)
        exact .inr ⟨_, _, hloads.report, hfile, hbase.symm, (hcopies file hfile).trans hoctets⟩
      · exact .inl ((hothers file hfile (houtside hoctets)).trans hoctets)

/-- No original is lost when a write run fails. Every file that there was has its content, or its copy in the
backup directory has it. All files have their content if the batch ended because its backup could not be made
or with a backup that can be restored, and also if the run tells that one or the other happened. -/
theorem failed_write_run_keeps_originals (hw : w.Plain) {directory : String}
    (hfree : w.tree.get? ((writeArguments directory).backupPlace w.directory.place) = none)
    (hexit : (execute (writeRun directory) w).outcome = .ok 1) :
    (∀ file, Keeps (writeArguments directory) w (execute (writeRun directory) w).workspace file) ∧
    (Reassures (execute (writeRun directory) w).workspace → ∀ file octets,
      w.tree.content? file = some octets →
      (execute (writeRun directory) w).workspace.tree.content? file = some octets) ∧
    (Retracts (writeArguments directory) w → ∀ file octets, w.tree.content? file = some octets →
      (execute (writeRun directory) w).workspace.tree.content? file = some octets) := by
  have houtcome := outcome_of_execute hw (parseArguments_of_execute hexit (by decide)) hexit
  obtain hintact | ⟨hkeeps, hsilent, hlasting⟩ := houtcome.keeps hw.restart hfree
  · exact ⟨fun file octets hoctets => .inl (hintact file octets hoctets), fun _ => hintact, fun _ => hintact⟩
  · exact ⟨hkeeps, fun h => absurd h hsilent, fun h => absurd h hlasting⟩

/-- A disk that takes no copies. -/
def uncopied : Workspace :=
  { project with faults := { copy := fun _ => some { message := "disk full" } } }

private theorem retracts_uncopied : Retracts (writeArguments "old") uncopied := by
  have hsound : uncopied.Sound := (by decide +kernel : uncopied.Plain).sound
  let element : Manifest.Element :=
    { agentId := "x", type := "a", filePath := "/p/src/app/a.html", line := 1, column := 1 }
  let said : List Output := [.log ⟨.debug, "Loaded 1 element(s) from /p/manifest.json"⟩]
  have hload : (loading (writeArguments "old")).Ends { uncopied with transcript := [] }
      (fun result w₁ => result = some [element] ∧ w₁.transcript = said) fun _ _ => False := by
    decide +kernel
  obtain ⟨_, _, hrun, rfl, hsaid⟩ := hload.exists_ok
  obtain ⟨-, entries, rfl⟩ := (ends_loading hsound _).ok hrun
  change entries.map Output.log = said at hsaid
  have hstops : (run (requestsOf [element]) (writeArguments "old").options).Ends
      { uncopied with transcript := said } (fun _ _ => False)
      fun failure _ => failure = .backupNotMade "/p/old" (.outside "disk full" false) := by
    decide +kernel
  obtain ⟨_, _, hstop, rfl⟩ := hstops.exists_error
  have hquiet : uncopied.transcript = [] := rfl
  rw [hsaid, hquiet, List.nil_append] at hrun
  exact ⟨_, _, hrun, .unsaved hstop⟩

/-- A full disk: writing the source stops after the first octet, and the file cannot be copied back. -/
def cramped : Workspace :=
  let full (path : String) : Option Interruption :=
    if path = "/p/src/app/a.html" then some { message := "disk full", residue := some [60] } else none
  { project with faults := { write := full, copy := full } }

theorem failed_write_run_keeps_cramped :
    (cramped.Plain ∧ cramped.tree.get? ((writeArguments "old").backupPlace cramped.directory.place) = none ∧
      (execute (writeRun "old") cramped).outcome = .ok 1 ∧
      (execute (writeRun "old") cramped).workspace.tree.content? ["p", "src", "app", "a.html"] = some [60] ∧
      ∀ file, Keeps (writeArguments "old") cramped (execute (writeRun "old") cramped).workspace file) ∧
    (uncopied.Plain ∧ uncopied.tree.get? ((writeArguments "old").backupPlace uncopied.directory.place) = none ∧
      (execute (writeRun "old") uncopied).outcome = .ok 1 ∧
      .err "No files were modified.\n" ∈ (execute (writeRun "old") uncopied).workspace.transcript ∧
      ∀ file octets, uncopied.tree.content? file = some octets →
        (execute (writeRun "old") uncopied).workspace.tree.content? file = some octets) := by
  constructor
  · have hplain : cramped.Plain := by decide +kernel
    have hfree : cramped.tree.get? ((writeArguments "old").backupPlace cramped.directory.place) = none := by
      decide +kernel
    have hexit : (execute (writeRun "old") cramped).outcome = .ok 1 := by decide +kernel
    exact ⟨hplain, hfree, hexit, by decide +kernel, (failed_write_run_keeps_originals hplain hfree hexit).1⟩
  · have hplain : uncopied.Plain := by decide +kernel
    have hfree : uncopied.tree.get? ((writeArguments "old").backupPlace uncopied.directory.place) = none := by
      decide +kernel
    have hexit : (execute (writeRun "old") uncopied).outcome = .ok 1 := by decide +kernel
    exact ⟨hplain, hfree, hexit, by decide +kernel,
      (failed_write_run_keeps_originals hplain hfree hexit).2.2 retracts_uncopied⟩

end TagStamp.CommandLine
