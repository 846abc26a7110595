import TagStamp.Proofs.Batch.Review

namespace TagStamp.Batch

open TagStamp.Action

-- unfolding it would run the action
seal Action.Ends

variable {w : Workspace} {path : String} {root : Location} {requests : List Request}

theorem ends_writeSource (hw : w.tree.Linkless) (hpath : Written path) (text : Text) :
    (writeSource path text).Ends w
      (fun _ w' => w.Evolves {placeOf path} w' ∧ w'.tree.content? (placeOf path) = some (Utf8.encode text))
      fun failure w' => failure.isDirect ∧ w.Evolves {placeOf path} w' := by
  have hwrite := ends_writeFile hw hpath.named (Utf8.encode text)
  rw [← hpath.eq_text] at hwrite
  simp only [writeSource, ends_bind, ends_get]
  split
  · next cause _ =>
    have hstop := ends_interrupt hw hpath.named cause
    rw [← hpath.eq_text] at hstop
    rw [ends_bind]
    exact hstop.imp (fun _ _ h => h.elim) fun _ _ h => h
  · exact hwrite.imp (fun _ _ h => ⟨h.1, h.2.1⟩) (by rintro _ _ ⟨h, rfl⟩; exact ⟨h, .refl _ _⟩)

/-- The places of the files that are to be written. -/
def places (pending : List (String × Text)) : List Location :=
  pending.map fun change => placeOf change.1

/-- All files are saved, then they are written. -/
inductive Commits (root : Location) (pending : List (String × Text)) (w w' : Workspace) : Prop
  | intro (saved : Workspace) (saves : Backup.Saves root (places pending) w saved)
      (evolves : saved.Evolves {place | place ∈ places pending} w')

/-- How a commit fails: while it writes, with a backup behind it; while it saves, with all files untouched; or
for a reason that ends the run. -/
inductive Aborts (root : Location) (pending : List (String × Text)) (w : Workspace) : Failure → Workspace → Prop
  | writing {w' : Workspace} (path : String) (error : DiskError) (commits : Commits root pending w w') :
      Aborts root pending w (.notWritten path error ⟨(Path.absolute root).text, pending.map Prod.fst⟩) w'
  | saving {w' : Workspace} (error : DiskError) (evolves : w.Evolves {place | Backup.Inside root place} w') :
      Aborts root pending w (.backupNotMade (Path.absolute root).text error) w'
  | direct {w' : Workspace} {failure : Failure} (hdirect : failure.isDirect) : Aborts root pending w failure w'

section Logged

variable {pending : List (String × Text)} {w w₁ w' : Workspace}

/-- What was logged before does not matter. -/
theorem Commits.of_logged (h : Commits root pending w₁ w') (h₁ : w.Logged w₁) : Commits root pending w w' := by
  obtain ⟨saved, hsaves, hevolves⟩ := h
  refine ⟨saved, { hsaves with evolves := ?_, sources := ?_, copies := ?_ }, hevolves⟩
  · exact (h₁.evolves.mono (Set.empty_subset _)).trans hsaves.evolves
  · rw [← h₁.tree]
    exact hsaves.sources
  · rw [← h₁.tree]
    exact hsaves.copies

theorem Aborts.of_logged {failure : Failure} (h : Aborts root pending w₁ failure w') (h₁ : w.Logged w₁) :
    Aborts root pending w failure w' := by
  cases h with
  | writing path error hcommits => exact .writing path error (hcommits.of_logged h₁)
  | saving error hevolves => exact .saving error ((h₁.evolves.mono (Set.empty_subset _)).trans hevolves)
  | direct hdirect => exact .direct hdirect

end Logged

/-- What is neither saved nor written is as it was. -/
theorem Commits.content {pending : List (String × Text)} {w w' : Workspace} {place : Location}
    (h : Commits root pending w w') (hplace : place ∉ places pending) (hbelow : ¬ root <+: place) :
    w'.tree.content? place = w.tree.content? place := by
  obtain ⟨saved, hsaves, hevolves⟩ := h
  rw [hevolves.content place hplace, hsaves.evolves.content place fun h => hbelow h.1]

theorem Commits.directory {pending : List (String × Text)} {w w' : Workspace} (h : Commits root pending w w') :
    w'.tree.get? root = some .directory := by
  obtain ⟨saved, hsaves, hevolves⟩ := h
  exact hevolves.directories root hsaves.directory

theorem named_places {pending : List (String × Text)} (hwritten : ∀ change ∈ pending, Written change.1) :
    ∀ file ∈ places pending, ∀ name ∈ file, IsName name := by
  intro file hfile
  obtain ⟨change, hchange, rfl⟩ := List.mem_map.1 hfile
  exact (hwritten change hchange).named

theorem texts_places {pending : List (String × Text)} (hwritten : ∀ change ∈ pending, Written change.1) :
    texts (places pending) = pending.map Prod.fst := by
  rw [texts, places, List.map_map]
  exact List.map_congr_left fun change hchange => (hwritten change hchange).eq_text.symm

/-- Writing touches the files only. A file that cannot be written names the backup. -/
theorem ends_forM_writeSource {pending : List (String × Text)} (hw : w.tree.Linkless)
    (hwritten : ∀ change ∈ pending, Written change.1) (hnodup : (places pending).Nodup) (backup : Backup) :
    (pending.forM fun (file, text) =>
      onDisk (writeSource file text) fun error => throw (Failure.notWritten file error backup)).Ends w
      (fun _ w' => w.Evolves {place | place ∈ places pending} w' ∧
        ∀ change ∈ pending, w'.tree.content? (placeOf change.1) = some (Utf8.encode change.2))
      fun failure w' => (failure.isDirect ∨ ∃ path error, failure = Failure.notWritten path error backup) ∧
        w.Evolves {place | place ∈ places pending} w' := by
  have hsub : {place | ∃ change ∈ pending, place = placeOf change.1} ⊆ {place | place ∈ places pending} := by
    rintro _ ⟨change, hchange, rfl⟩
    exact List.mem_map.2 ⟨change, hchange, rfl⟩
  have hround (change : String × Text) (hchange : change ∈ pending) (w : Workspace) (hw : w.tree.Linkless) :
      (onDisk (writeSource change.1 change.2) fun error => throw (Failure.notWritten change.1 error backup)).Ends w
        (fun _ w' => w.Evolves {placeOf change.1} w' ∧
          w'.tree.content? (placeOf change.1) = some (Utf8.encode change.2))
        fun failure w' => (failure.isDirect ∨ ∃ path error, failure = .notWritten path error backup) ∧
          w.Evolves {placeOf change.1} w' :=
    (ends_writeSource hw (hwritten change hchange) change.2).rethrow.imp (fun _ _ h => h)
      fun _ _ h => ⟨h.1.imp_right fun ⟨error, herror⟩ => ⟨change.1, error, herror⟩, h.2⟩
  exact (ends_forM_files (List.pairwise_map.1 hnodup) (fun _ _ _ _ _ _ _ => rfl) hround hw).imp
    (fun _ _ h => ⟨h.1.mono hsub, h.2⟩) fun _ _ h => ⟨h.1, h.2.mono hsub⟩

/-- A commit saves all files and writes them. -/
theorem ends_commit {pending : List (String × Text)} {directory : String} {setting : Json}
    (hchosen : Backup.chosenDirectory setting = .ok (.parse directory)) (hw : w.Sound)
    (hroot : root = (Path.parse directory).destination w.directory.place)
    (hwritten : ∀ change ∈ pending, Written change.1) (hnodup : (places pending).Nodup) :
    (commit pending setting).Ends w
      (fun backup w' => backup = ⟨(Path.absolute root).text, pending.map Prod.fst⟩ ∧ Commits root pending w w' ∧
        ∀ change ∈ pending, w'.tree.content? (placeOf change.1) = some (Utf8.encode change.2))
      fun failure w' => Aborts root pending w failure w' := by
  have hcreate := Backup.ends_create hchosen hw.linkless hw.named hroot
    (Backup.savedPlaces_texts (named_places hwritten) hnodup w.directory.place).symm
  rw [texts_places hwritten] at hcreate
  simp only [commit, ends_bind, ends_log, ends_pure]
  refine hcreate.imp ?_ ?_
  · rintro _ w₁ ⟨rfl, hsaves, -⟩
    refine (ends_forM_writeSource (hsaves.evolves.linkless hw.linkless) hwritten hnodup _).imp
      (fun _ w₂ h₂ => ⟨rfl, ⟨w₁, hsaves, h₂.1.log _⟩, h₂.2⟩) ?_
    rintro failure w' ⟨hdirect | ⟨path, error, rfl⟩, hevolves⟩
    · exact .direct hdirect
    · exact .writing path error ⟨w₁, hsaves, hevolves⟩
  · rintro failure w' ⟨hdirect | ⟨error, rfl⟩, hevolves⟩
    · exact .direct hdirect
    · exact .saving error hevolves

/-- The report on reviewed files. -/
def Report.of (files : List FileReport) (backup : Option Backup) : Report where
  files := files
  totalApplied := total FileReport.applied files
  totalSkipped := total FileReport.skipped files
  backup := backup

@[simp]
theorem Report.files_of (files : List FileReport) (backup : Option Backup) :
    (Report.of files backup).files = files := rfl

/-- A run is a review, with a commit after it if there is something to write and it may be written. -/
theorem run_eq (requests : List Request) (options : Options) :
    run requests options = do
      let files ← review requests
      if options.writesFiles && !(pendingWrites files).isEmpty then
        return .of files (some (← commit (pendingWrites files) options.backupDirectory))
      else return .of files none := by
  simp only [run, review, Report.of, bind_assoc, pure_bind]

theorem mem_pendingWrites {files : List FileReport} {change : String × Text} :
    change ∈ pendingWrites files ↔
      ∃ report ∈ files, ∃ patch, report.patch = some patch ∧ change = (report.file, patch.new) := by
  simp only [pendingWrites, List.mem_filterMap, Option.map_eq_some_iff]
  constructor
  · rintro ⟨report, hreport, patch, hpatch, rfl⟩
    exact ⟨report, hreport, patch, hpatch, rfl⟩
  · rintro ⟨report, hreport, patch, hpatch, rfl⟩
    exact ⟨report, hreport, patch, hpatch, rfl⟩

/-- There is something to write exactly if there are patches. -/
theorem patches_of_eq_nil_iff {files : List FileReport} {backup : Option Backup} :
    (Report.of files backup).patches = [] ↔ pendingWrites files = [] := by
  simp [Report.patches, Report.of, pendingWrites, List.filterMap_eq_nil_iff]

theorem mem_places_pendingWrites {files : List FileReport} {place : Location} :
    place ∈ places (pendingWrites files) ↔
      ∃ report ∈ files, ∃ patch, report.patch = some patch ∧ placeOf report.file = place := by
  simp only [places, List.mem_map, mem_pendingWrites]
  constructor
  · rintro ⟨_, ⟨report, hreport, patch, hpatch, rfl⟩, hplace⟩
    exact ⟨report, hreport, patch, hpatch, hplace⟩
  · rintro ⟨report, hreport, patch, hpatch, hplace⟩
    exact ⟨_, ⟨report, hreport, patch, hpatch, rfl⟩, hplace⟩

private theorem pendingWrites_sublist (files : List FileReport) :
    ((pendingWrites files).map Prod.fst).Sublist (files.map FileReport.file) := by
  induction files with
  | nil => simp [pendingWrites]
  | cons report rest ih =>
    cases hpatch : report.patch with
    | none => simpa [pendingWrites, hpatch] using ih.trans (List.sublist_cons_self _ _)
    | some patch => simpa [pendingWrites, hpatch] using ih

section Reviewed

variable {t : FileTree} {files : List FileReport}

theorem Reviews.mem_files (h : Reviews t requests files) {report : FileReport} (hreport : report ∈ files) :
    ∃ r ∈ requests, r.file = report.file := by
  have hgroup := h.sublist.subset (List.mem_map_of_mem hreport)
  exact List.mem_map.1 (((groups_groupByFile requests).files report.file).1 hgroup)

theorem Reviews.written (h : Reviews t requests files) (hrequests : ∀ r ∈ requests, Written r.file) :
    ∀ report ∈ files, Written report.file := by
  intro report hreport
  obtain ⟨r, hr, heq⟩ := h.mem_files hreport
  exact heq ▸ hrequests r hr

/-- Each file is reported on once. -/
theorem Reviews.nodup (h : Reviews t requests files) : (files.map FileReport.file).Nodup :=
  (groups_groupByFile requests).nodup.sublist h.sublist

theorem written_of_mem_pendingWrites (h : ∀ report ∈ files, Written report.file) :
    ∀ change ∈ pendingWrites files, Written change.1 := by
  intro change hchange
  obtain ⟨report, hreport, patch, -, rfl⟩ := mem_pendingWrites.1 hchange
  exact h report hreport

/-- No file is written twice. -/
theorem Reviews.nodup_places (h : Reviews t requests files) (hrequests : ∀ r ∈ requests, Written r.file) :
    (places (pendingWrites files)).Nodup := by
  have hwritten := written_of_mem_pendingWrites (h.written hrequests)
  have hnodup : ((pendingWrites files).map Prod.fst).Nodup := h.nodup.sublist (pendingWrites_sublist files)
  rw [← texts_places hwritten] at hnodup
  exact hnodup.of_map _

end Reviewed

end TagStamp.Batch
