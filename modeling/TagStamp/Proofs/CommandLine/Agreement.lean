import TagStamp.Proofs.CommandLine.Execution

namespace TagStamp.CommandLine

open TagStamp.Action Batch

-- unfolding it would run the action
seal Action.Ends

/-- The patches of a report lead from one tree to another. Each starts at the text of its file and comes to
what the targets of all elements in the file make of it; files without a patch are the same. -/
structure Applies (manifest : Manifest) (directory : Location) (report : Report) (t t' : FileTree) : Prop where
  patched : ∀ f ∈ report.files, ∀ patch, f.patch = some patch →
    (∃ octets, t.content? (placeOf f.file) = some octets ∧ Utf8.decode octets = .ok patch.old) ∧
      patch.new = (Stamp.run patch.old (targetsAt manifest directory (placeOf f.file))).text ∧
      t'.content? (placeOf f.file) = some (Utf8.encode patch.new)
  others : ∀ place, (∀ f ∈ report.files, f.patch.isSome → placeOf f.file ≠ place) →
    t'.content? place = t.content? place

/-- Every file with a text that its targets change has a patch in the report. -/
def Covers (manifest : Manifest) (report : Report) (w : Workspace) : Prop :=
  ∀ place text, textAt w (Path.absolute place).text = .ok text →
    (Stamp.run text (targetsAt manifest w.directory.place place)).modified = true →
    ∃ f ∈ report.files, placeOf f.file = place ∧ ∃ patch, f.patch = some patch ∧ patch.old = text

variable {w w' : Workspace} {args : Arguments} {manifest : Manifest} {report : Report} {t t' : FileTree}

/-- No file appears and none is lost. -/
theorem Applies.isSome_content {directory : Location} (h : Applies manifest directory report t t')
    (place : Location) :
    (t'.content? place).isSome = (t.content? place).isSome := by
  by_cases hpatch : ∃ f ∈ report.files, f.patch.isSome ∧ placeOf f.file = place
  · obtain ⟨f, hf, hsome, rfl⟩ := hpatch
    obtain ⟨patch, hpatch⟩ := Option.isSome_iff_exists.1 hsome
    obtain ⟨⟨octets, hoctets, -⟩, -, hnew⟩ := h.patched f hf patch hpatch
    rw [hoctets, hnew, Option.isSome_some, Option.isSome_some]
  · rw [h.others place fun f hf hsome heq => hpatch ⟨f, hf, hsome, heq⟩]

private theorem notMem_places {files : List FileReport} {place : Location}
    (h : ∀ f ∈ files, f.patch.isSome → placeOf f.file ≠ place) : place ∉ places (pendingWrites files) := by
  intro hplace
  obtain ⟨f, hf, patch, hpatch, heq⟩ := mem_places_pendingWrites.1 hplace
  exact h f hf (by rw [hpatch, Option.isSome_some]) heq

/-- Without outside causes, a write run applies the patches of the dry run if the backup directory is new. -/
theorem Outcome.applies (h : Outcome args w 0 w') (hw : w.Plain) (hwrite : args.write = true)
    (hfaults : w.faults.removeTree = none) (hfree : w.tree.get? (args.backupPlace w.directory.place) = none) :
    ∃ manifest report, Manifest.StandsAt w (args.manifestPlace w.directory.place) manifest ∧
      dryReport args w = some report ∧ Covers manifest report w ∧
      Applies manifest w.directory.place report w.tree w'.tree := by
  cases h with
  | @unwritten _ manifest files hloads hidle htree _ =>
    have hnone := hidle.resolve_left (by simp [hwrite])
    refine ⟨manifest, _, hloads.stands, hloads.report, fun _ _ => hloads.exists_patch hw.sound,
      fun f hf patch hpatch => ?_, fun _ _ => by rw [htree]⟩
    have hpending := mem_pendingWrites.2 ⟨f, hf, patch, hpatch, rfl⟩
    rw [Report.files_of, hnone] at hpending
    cases hpending
  | @written w₁ _ manifest files hloads _ _ hcommits hcontent htree =>
    refine ⟨manifest, _, hloads.stands, hloads.report, fun _ _ => hloads.exists_patch hw.sound,
      fun f hf patch hpatch => ?_, fun place hplace => ?_⟩
    · obtain ⟨octets, hoctets, hdecode, hnew⟩ := hloads.patch hw.sound hf hpatch
      refine ⟨⟨octets, hoctets, hdecode⟩, hnew, ?_⟩
      rw [content_outside hcommits htree (hw.tree.not_prefix_of_content hfree hoctets)]
      exact hcontent (f.file, patch.new) (mem_pendingWrites.2 ⟨f, hf, patch, hpatch, rfl⟩)
    · by_cases hbelow : args.backupPlace w.directory.place <+: place
      · -- nothing was there, and nothing is left of the copies
        have hnone := hw.tree.get?_eq_none_below hfree hbelow
        rw [content_below hcommits htree hfaults hbelow, FileTree.content?, hnone]
      · rw [content_outside hcommits htree hbelow]
        exact hcommits.content (notMem_places hplace) hbelow

/-- A dry run that succeeds shows its report. -/
theorem Outcome.shows (h : Outcome args w 0 w') (hwrite : args.write = false) :
    ∃ report, dryReport args w = some report ∧ Shows args report (printed w') := by
  cases h with
  | unwritten hloads _ _ hshown => exact ⟨_, hloads.report, hshown⟩
  | written _ hasked => simp [hwrite] at hasked

/-- The action ends with the given code or failure, and leaves the given tree. -/
def Leaves (a : Action Nat) (w : Workspace) (outcome : Except Failure Nat) (t : FileTree) : Prop :=
  a.Ends w (fun code w' => .ok code = outcome ∧ w'.tree = t)
    fun failure w' => .error failure = outcome ∧ w'.tree = t

/-- After the batch, what a run leaves does not depend on how it reports. -/
theorem leaves_conclude {undone : Prop} {files : List FileReport} {result : Option Report} (hw : w.Sound)
    (hbatched : Batched undone args.write (args.backupPlace w.directory.place) files w result w') :
    ∃ outcome t, ∀ json, Leaves (conclude { args with json } result) w' outcome t := by
  unfold conclude Leaves
  cases hbatched with
  | unwritten hidle hlogged =>
    refine ⟨.ok 0, w'.tree, fun json => ?_⟩
    simp only [ends_bind, ends_pure]
    refine (ends_finish_of_no_backup rfl).imp ?_ fun _ _ h => h.elim
    rintro _ _ ⟨_, hspoke, -⟩
    exact ⟨trivial, hspoke.tree⟩
  | written hasked hchanges hcommits hcontent =>
    refine ⟨.ok 0, w.faults.remains w'.tree (args.backupPlace w.directory.place), fun json => ?_⟩
    simp only [ends_bind, ends_pure]
    exact (ends_finish_of_commits hw (isName_of_mem_backupPlace hw.named args) hcommits _ rfl).imp
      (fun _ _ h => ⟨trivial, h⟩) fun _ _ h => h.elim
  | failed hasked hfallback => exact ⟨.ok 1, w'.tree, fun json => ends_pure.2 ⟨rfl, rfl⟩⟩

/-- A run in JSON ends as the run without it, and leaves the same tree. -/
theorem leaves_annotate (hw : w.Sound) (hstart : w.transcript = []) (args : Arguments) :
    ∃ outcome t, ∀ json, Leaves (annotate { args with json }) w outcome t := by
  have hsilent : ¬ Reassures w := by simp [Reassures, hstart]
  have hload (json : Bool) : loading { args with json } = loading args := loading_congr rfl
  simp only [Leaves, annotate_eq, ends_bind, hload]
  cases hloading : (loading args).run w with
  | error failure w₁ => exact ⟨.error failure, w₁.tree, fun json => (ends_of_error hloading).2 ⟨rfl, rfl⟩⟩
  | ok result w₁ =>
    have hspec := (ends_loading hw args).ok hloading
    simp only [ends_of_ok hloading]
    cases result with
    | none => exact ⟨.ok 1, w₁.tree, fun json => ends_pure.2 ⟨rfl, rfl⟩⟩
    | some elements =>
      obtain ⟨⟨manifest, hmanifest, helements⟩, hlogged⟩ := hspec
      cases elements with
      | nil =>
        refine ⟨.ok 0, w₁.tree, fun json => (ends_report_nothing { args with json }).imp ?_ fun _ _ h => h.elim⟩
        rintro _ w₂ ⟨rfl, _, hspoke, -⟩
        exact ⟨rfl, hspoke.tree⟩
      | cons first rest =>
        have hwritten := written_of_mem_requestsOf manifest.elements hw.named
        rw [← helements] at hwritten
        have hbatch := ends_runBatch hlogged (hlogged.evolves.sound hw) hsilent
          (chosenDirectory_pathSetting args) rfl hwritten
        have hoptions (json : Bool) : ({ args with json } : Arguments).options = args.options := rfl
        simp only [ends_bind, hoptions]
        cases hrun : (runBatch (first :: rest) args.options).run w₁ with
        | error failure w₂ => exact ⟨.error failure, w₂.tree, fun json => (ends_of_error hrun).2 ⟨rfl, rfl⟩⟩
        | ok result w₂ =>
          obtain ⟨files, _, -, -, hbatched⟩ := hbatch.ok hrun
          rw [hlogged.evolves.directory, writesFiles_options] at hbatched
          simp only [ends_of_ok hrun]
          exact leaves_conclude hw hbatched

theorem execute_of_leaves {argv : List String} {outcome : Except Failure Nat}
    (hparse : parseArguments argv = .ok args)
    (h : Leaves (annotate args) { w with transcript := [] } outcome t) :
    (execute argv w).outcome = outcome ∧ (execute argv w).workspace.tree = t := by
  simp only [execute, hparse]
  cases hrun : (annotate args).run { w with transcript := [] } with
  | ok code w' => exact Ends.ok h hrun
  | error failure w' => exact Ends.error h hrun

/-- Dry run and write run agree. A run that may not write changes nothing, and shows its report in JSON or the
diffs in it. A write run that succeeds, with a backup directory where nothing was, applies the patches of the
dry run from the same state and leaves no other trace; every file that its targets change has such a patch.
Neither its exit code nor its files depend on the form of the report. -/
theorem write_run_applies_dry_run (hw : w.Plain) (hfaults : w.faults.removeTree = none) :
    (∀ argv, (∀ args, parseArguments argv = .ok args → args.write = false) →
      (execute argv w).workspace.tree = w.tree) ∧
    (∀ argv args, parseArguments argv = .ok args → args.write = false → (execute argv w).outcome = .ok 0 →
      ∃ report, dryReport args w = some report ∧ Shows args report (execute argv w).stdout) ∧
    (∀ argv args, parseArguments argv = .ok args → args.write = true →
      w.tree.get? (args.backupPlace w.directory.place) = none → (execute argv w).outcome = .ok 0 →
      ∃ manifest report, Manifest.StandsAt w (args.manifestPlace w.directory.place) manifest ∧
        dryReport { args with write := false } w = some report ∧ Covers manifest report w ∧
        Applies manifest w.directory.place report w.tree (execute argv w).workspace.tree ∧
        ∀ place, ((execute argv w).workspace.tree.content? place).isSome = (w.tree.content? place).isSome) ∧
    ∀ argv argv' args, parseArguments argv = .ok args → parseArguments argv' = .ok { args with json := true } →
      (execute argv' w).outcome = (execute argv w).outcome ∧
        (execute argv' w).workspace.tree = (execute argv w).workspace.tree := by
  refine ⟨fun argv hdry => tree_execute_of_not_write hw hdry, ?_, ?_, ?_⟩
  · intro argv args hparse hwrite hexit
    have hstdout : (execute argv w).stdout = printed (execute argv w).workspace := by
      simp only [execute, hparse]
      cases (annotate args).run { w with transcript := [] } <;> rfl
    rw [hstdout]
    exact (outcome_of_execute hw hparse hexit).shows hwrite
  · intro argv args hparse hwrite hfree hexit
    obtain ⟨manifest, report, hstands, hreport, hcovers, happlies⟩ :=
      (outcome_of_execute hw hparse hexit).applies hw.restart hwrite hfaults hfree
    have hdry : dryReport { args with write := false } w = dryReport args w := dryReport_congr rfl w
    exact ⟨manifest, report, hstands, hdry.trans hreport, hcovers, happlies, happlies.isSome_content⟩
  · intro argv argv' args hparse hparse'
    obtain ⟨outcome, t, hleaves⟩ := leaves_annotate hw.restart.sound rfl args
    obtain ⟨houtcome, htree⟩ := execute_of_leaves hparse (hleaves args.json)
    obtain ⟨houtcome', htree'⟩ := execute_of_leaves hparse' (hleaves true)
    exact ⟨houtcome'.trans houtcome.symm, htree'.trans htree.symm⟩

/-- The patch that a dry run of the project reports. -/
def projectPatch : Diff.FilePatch where
  path := "src/app/a.html"
  old := "<a>".toList
  new := "<a data-agent-id=\"x\">".toList
  diff := "--- a/src/app/a.html\n+++ b/src/app/a.html\n@@ -1,1 +1,1 @@\n-<a>\n+<a data-agent-id=\"x\">".toList

theorem write_run_applies_dry_run_of_project :
    project.Plain ∧ project.faults.removeTree = none ∧
      project.tree.get? ((writeArguments "old").backupPlace project.directory.place) = none ∧
      (execute (writeRun "old") project).outcome = .ok 0 ∧
      (execute ["annotate"] project).workspace.tree = project.tree ∧
      (execute ["annotate"] project).stdout = String.ofList projectPatch.diff ++ "\n" ∧
      (∃ report, dryReport { json := true } project = some report ∧
        (execute ["annotate", "--json"] project).stdout = Json.render .indented report.toJson ++ "\n") ∧
      (∃ manifest report,
        Manifest.StandsAt project ((writeArguments "old").manifestPlace project.directory.place) manifest ∧
        dryReport { writeArguments "old" with write := false } project = some report ∧
        report.patches = [projectPatch] ∧ Covers manifest report project ∧
        Applies manifest project.directory.place report project.tree
          (execute (writeRun "old") project).workspace.tree) ∧
      (execute (writeRun "old") project).workspace.tree.content? ["p", "src", "app", "a.html"] =
        some (Utf8.encode projectPatch.new) ∧
      (execute (writeRun "old" ++ ["--json"]) project).workspace.tree =
        (execute (writeRun "old") project).workspace.tree := by
  have hplain : project.Plain := by decide +kernel
  have hfree : project.tree.get? ((writeArguments "old").backupPlace project.directory.place) = none := by
    decide +kernel
  have hexit : (execute (writeRun "old") project).outcome = .ok 0 := by decide +kernel
  have hshown : (execute ["annotate"] project).outcome = .ok 0 := by decide +kernel
  have hfiles : (dryReport {} project).map Report.files =
      some [⟨"/p/src/app/a.html", 1, 0, some projectPatch⟩] := by
    decide +kernel
  have hplainRun : parseArguments ["annotate"] = .ok {} := rfl
  have hjsonRun : parseArguments ["annotate", "--json"] = .ok { json := true } := rfl
  have hwriteRun : parseArguments (writeRun "old") = .ok (writeArguments "old") := rfl
  have hwriteJsonRun :
      parseArguments (writeRun "old" ++ ["--json"]) = .ok { writeArguments "old" with json := true } := rfl
  obtain ⟨hdry, hshows, happlies, hjson⟩ := write_run_applies_dry_run hplain rfl
  obtain ⟨manifest, report, hstands, hreport, hcovers, hpatches, -⟩ := happlies _ _ hwriteRun rfl hfree hexit
  obtain ⟨shown, hplainReport, hplainShows⟩ := hshows _ _ hplainRun rfl hshown
  obtain ⟨listed, hjsonReport, hjsonShows⟩ :=
    hshows _ _ hjsonRun rfl ((hjson _ _ _ hplainRun hjsonRun).1.trans hshown)
  -- all of them are runs from the same state with the same manifest
  have hmanifest : ({ writeArguments "old" with write := false } : Arguments).manifest = ({} : Arguments).manifest :=
    rfl
  have hsame := dryReport_congr hmanifest project
  rw [hsame] at hreport
  cases hplainReport.symm.trans hreport
  rw [hreport, Option.map_some, Option.some.injEq] at hfiles
  have hlisted : report.patches = [projectPatch] := by rw [Report.patches, hfiles]; rfl
  have hplace : placeOf "/p/src/app/a.html" = ["p", "src", "app", "a.html"] := by decide +kernel
  obtain ⟨-, -, hnew⟩ := hpatches.patched ⟨"/p/src/app/a.html", 1, 0, some projectPatch⟩ (by simp [hfiles]) _ rfl
  rw [hplace] at hnew
  refine ⟨hplain, rfl, hfree, hexit, hdry _ ?_, ?_, ⟨listed, hjsonReport, hjsonShows.json rfl⟩,
    ⟨manifest, report, hstands, hsame.trans hreport, hlisted, hcovers, hpatches⟩, hnew,
    (hjson _ _ _ hwriteRun hwriteJsonRun).2⟩
  · intro args hparse
    cases hplainRun.symm.trans hparse
    rfl
  · rw [hplainShows.diffs rfl rfl (by simp [hlisted]), hlisted]
    exact String.intercalate_singleton

end TagStamp.CommandLine
