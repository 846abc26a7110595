import TagStamp.Proofs.CommandLine.Execution

namespace TagStamp.CommandLine

open Batch

/-- The manifest has an element in the file at a place. -/
def Names (args : Arguments) (w : Workspace) (place : Location) : Prop :=
  ∃ manifest, Manifest.StandsAt w (args.manifestPlace w.directory.place) manifest ∧
    ∃ e ∈ manifest.elements, e.place w.directory.place = place

/-- If there was a file at a place, it is still there, and it has changed only if the manifest names it. -/
def Spares (args : Arguments) (w w' : Workspace) (place : Location) : Prop :=
  ∀ octets, w.tree.content? place = some octets →
    w'.tree.content? place = some octets ∨ (w'.tree.content? place).isSome ∧ Names args w place

variable {w w' : Workspace} {args : Arguments} {place : Location}

theorem spares_of_content (h : w'.tree.content? place = w.tree.content? place) : Spares args w w' place :=
  fun _ hoctets => .inl (h.trans hoctets)

theorem Loads.names {manifest : Manifest} {files : List FileReport} (h : Loads args w manifest files)
    (hw : w.Sound) (hplace : place ∈ places (pendingWrites files)) : Names args w place := by
  obtain ⟨report, hreport, patch, -, rfl⟩ := mem_places_pendingWrites.1 hplace
  exact ⟨manifest, h.stands, h.named hw hreport⟩

/-- Outside the backup directory a run changes only what the manifest names. -/
theorem Outcome.spares (h : Outcome args w 0 w') (hw : w.Sound)
    (hplace : ¬ args.backupPlace w.directory.place <+: place) : Spares args w w' place := by
  cases h with
  | unwritten _ _ htree _ => exact spares_of_content (by rw [htree])
  | @written w₁ _ _ files hloads _ _ hcommits hcontent htree =>
    have hkept := content_outside hcommits htree hplace
    by_cases hpending : place ∈ places (pendingWrites files)
    · intro _ _
      refine .inr ⟨?_, hloads.names hw hpending⟩
      obtain ⟨change, hchange, rfl⟩ := List.mem_map.1 hpending
      rw [hkept, hcontent change hchange, Option.isSome_some]
    · exact spares_of_content (hkept.trans (hcommits.content hpending hplace))

/-- A write run finds nothing to write and leaves all as it was, or it removes the backup directory with
everything that was in it. -/
theorem Outcome.idle_or_pruned (h : Outcome args w 0 w') (hwrite : args.write = true)
    (hfaults : w.faults.removeTree = none) :
    ∃ report, dryReport args w = some report ∧
      (report.patches = [] ∧ w'.tree = w.tree ∨
        report.patches ≠ [] ∧
          ∀ place, args.backupPlace w.directory.place <+: place → w'.tree.content? place = none) := by
  cases h with
  | unwritten hloads hidle htree _ =>
    have hnone := hidle.resolve_left (by simp [hwrite])
    exact ⟨_, hloads.report, .inl ⟨patches_of_eq_nil_iff.2 hnone, htree⟩⟩
  | written hloads _ hchanges hcommits _ htree =>
    refine ⟨_, hloads.report, .inr ⟨mt patches_of_eq_nil_iff.1 hchanges, fun _ hplace => ?_⟩⟩
    exact content_below hcommits htree hfaults hplace

/-- A write run that succeeds spares every file outside the backup directory, and it spares all files
exactly if a dry run has no patch or no file was in the backup directory. -/
theorem write_run_spares_iff (hw : w.Plain) (hfaults : w.faults.removeTree = none) {directory : String}
    (hexit : (execute (writeRun directory) w).outcome = .ok 0) :
    (∀ place, ¬ (writeArguments directory).backupPlace w.directory.place <+: place →
      Spares (writeArguments directory) w (execute (writeRun directory) w).workspace place) ∧
    ((∀ place, Spares (writeArguments directory) w (execute (writeRun directory) w).workspace place) ↔
      (∃ report, dryReport (writeArguments directory) w = some report ∧ report.patches = []) ∨
      ∀ place, (writeArguments directory).backupPlace w.directory.place <+: place →
        w.tree.content? place = none) := by
  have houtcome := outcome_of_execute hw (parseArguments_of_execute hexit (by decide)) hexit
  have hspares (place : Location)
      (hplace : ¬ (writeArguments directory).backupPlace w.directory.place <+: place) :
      Spares (writeArguments directory) w (execute (writeRun directory) w).workspace place :=
    houtcome.spares hw.restart.sound hplace
  refine ⟨hspares, ?_⟩
  obtain ⟨report, hreport, ⟨hnone, htree⟩ | ⟨hsome, hgone⟩⟩ := houtcome.idle_or_pruned rfl hfaults
  · exact iff_of_true (fun _ => spares_of_content (by rw [htree])) (.inl ⟨report, hreport, hnone⟩)
  constructor
  · -- nothing in the backup directory survives, so there was nothing to spare
    intro hall
    refine .inr fun place hplace => ?_
    rw [Option.eq_none_iff_forall_ne_some]
    intro octets hoctets
    have hlost := hgone place hplace
    obtain hkept | ⟨hkept, -⟩ := hall place octets hoctets
    · exact absurd (hlost.symm.trans hkept) (by simp)
    · simp [hlost] at hkept
  · rintro (⟨other, hother, hnone⟩ | hempty) place
    · cases hreport.symm.trans hother
      exact absurd hnone hsome
    · by_cases hplace : (writeArguments directory).backupPlace w.directory.place <+: place
      · intro octets hoctets
        exact absurd ((hempty place hplace).symm.trans hoctets) (by simp)
      · exact hspares place hplace

/-- A project with an empty directory. -/
def spacious : Workspace :=
  { project with tree := project.tree.set ["p", "old"] .directory }

theorem write_run_spares_spacious :
    spacious.Plain ∧ spacious.faults.removeTree = none ∧ (execute (writeRun "old") spacious).outcome = .ok 0 ∧
      ∀ place, Spares (writeArguments "old") spacious (execute (writeRun "old") spacious).workspace place := by
  have hplain : spacious.Plain := by decide +kernel
  have hexit : (execute (writeRun "old") spacious).outcome = .ok 0 := by decide +kernel
  refine ⟨hplain, rfl, hexit, (write_run_spares_iff hplain rfl hexit).2.2 (.inr fun place hplace => ?_)⟩
  have hempty : ∀ e ∈ spacious.tree.entries, ["p", "old"] <+: e.1 → e.2 = .directory := by decide +kernel
  have hroot : (writeArguments "old").backupPlace spacious.directory.place = ["p", "old"] := by decide +kernel
  rw [hroot] at hplace
  rw [Option.eq_none_iff_forall_ne_some]
  intro octets hoctets
  have hget := FileTree.content?_eq_some_iff.1 hoctets
  have hne : place ≠ [] := by
    rintro rfl
    simp at hget
  cases hempty _ (FileTree.mem_entries_of_get? hne hget) hplace

/-- With the directory of the sources for the backup, a run succeeds, and the notes are gone together with the
source that was annotated. -/
theorem write_run_loses_sources :
    project.Plain ∧ (execute (writeRun "src") project).outcome = .ok 0 ∧
      ¬ Spares (writeArguments "src") project (execute (writeRun "src") project).workspace ["p", "src", "notes"] ∧
      ¬ Spares (writeArguments "src") project (execute (writeRun "src") project).workspace
        ["p", "src", "app", "a.html"] := by
  have hleft : (execute (writeRun "src") project).workspace.tree.entries.map Prod.fst =
      [["p"], ["p", "manifest.json"]] := by
    decide +kernel
  have hlost (place : Location) (hne : place ≠ []) (hplace : place ∉ [["p"], ["p", "manifest.json"]]) :
      (execute (writeRun "src") project).workspace.tree.content? place = none := by
    rw [Option.eq_none_iff_forall_ne_some]
    intro octets hoctets
    have hmem := FileTree.mem_entries_of_get? hne (FileTree.content?_eq_some_iff.1 hoctets)
    exact hplace (hleft ▸ List.mem_map_of_mem hmem)
  refine ⟨by decide +kernel, by decide +kernel, fun h => ?_, fun h => ?_⟩
  · have hspared := h [110, 111] (by decide +kernel)
    simp [hlost] at hspared
  · have hspared := h [60, 97, 62] (by decide +kernel)
    simp [hlost] at hspared

end TagStamp.CommandLine
