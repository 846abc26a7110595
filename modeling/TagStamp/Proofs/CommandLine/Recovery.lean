import TagStamp.Proofs.Batch.Isolation
import TagStamp.Proofs.CommandLine.Loading

namespace TagStamp.CommandLine

open TagStamp.Action Batch

-- unfolding it would run the action
seal Action.Ends

/-- How a run begins a line that tells, or implies, that all files are as they were. -/
def reassurances : List String :=
  ["Error: Failed to create backup", "No files were modified.", "Restored original files from backup."]

/-- The run said that all files are as they were. -/
def Reassures (w : Workspace) : Prop :=
  ∃ text, .err text ∈ w.transcript ∧ ∃ start ∈ reassurances, start.toList <+: text.toList

variable {w w' : Workspace} {root : Location} {files : List Location}

@[simp]
theorem ends_printError {text : String} {done : Unit → Workspace → Prop} {failed : Failure → Workspace → Prop} :
    (printError text).Ends w done failed ↔
      done () { w with transcript := w.transcript ++ [.err (text ++ "\n")] } := ends_say

@[simp]
theorem ends_print {text : String} {done : Unit → Workspace → Prop} {failed : Failure → Workspace → Prop} :
    (print text).Ends w done failed ↔
      done () { w with transcript := w.transcript ++ [.out (text ++ "\n")] } := ends_say

theorem not_reassures_of_evolves {touched : Set Location} (h : w.Evolves touched w')
    (hsilent : ¬ Reassures w) : ¬ Reassures w' := by
  obtain ⟨entries, hentries⟩ := h.transcript
  simpa [Reassures, hentries] using hsilent

/-- What does not begin like a reassurance is none. -/
theorem not_reassures_err {text : String} (hsilent : ¬ Reassures w)
    (htext : ∀ start ∈ reassurances, ¬ start.toList <+: text.toList) :
    ¬ Reassures { w with transcript := w.transcript ++ [.err text] } := by
  rintro ⟨said, hsaid, start, hstart, hprefix⟩
  rw [List.mem_append, List.mem_singleton] at hsaid
  obtain hsaid | ⟨⟨⟩⟩ := hsaid
  · exact hsilent ⟨said, hsaid, start, hstart, hprefix⟩
  · exact htext start hstart hprefix

/-- The report on a file that could not be written is no reassurance. -/
theorem not_reassures_notWritten {path : String} {error : DiskError} {backup : Backup} (hsilent : ¬ Reassures w) :
    ¬ Reassures { w with transcript := w.transcript ++
      [.err ("Error: " ++ (Failure.notWritten path error backup).message ++ "\n")] } := by
  have hmessage : (Failure.notWritten path error backup).message =
      "Failed to write \"" ++ path ++ "\": " ++ error.message := rfl
  rw [hmessage]
  exact not_reassures_err hsilent (by simp [reassurances])

/-- Whether a backup can be restored does not depend on what was said. -/
theorem discreet_restore (backup : Backup) : Discreet backup.restore := by
  have hputBack (root : Path) (file : Path × Path) : Silent (Backup.putBack root file) :=
    (silent_makeDirectories _).bind fun _ => silent_copyFile _ _
  refine Discreet.bind (Silent.discreet ?_) fun _ => discreet_log _ _
  exact ((silent_layout _).bind fun files => .forM (hputBack _)).onDisk fun error => silent_throw _

/-- A recovery gives all files the content of their copies, or it touches nothing but these files and does
not say that it succeeded. The latter happens only if the backup cannot be restored. -/
theorem ends_recover (hw : w.tree.Linkless) (hroot : ∀ name ∈ root, IsName name)
    (hfiles : ∀ file ∈ files, ∀ name ∈ file, IsName name) (hnodup : files.Nodup)
    (houtside : ∀ file ∈ files, ¬ root <+: file) (hleads : w.tree.Leads root)
    (hdirectory : w.tree.get? root = some .directory) (hnul : '\x00' ∉ (Path.absolute root).text.toList)
    (hsilent : ¬ Reassures w) :
    (recover ⟨(Path.absolute root).text, texts files⟩).Ends w
      (fun _ w' =>
        (∀ place, ¬ root <+: place → w'.tree.content? place =
          if place ∈ files then w.tree.content? (Backup.copyPlace root files place)
          else w.tree.content? place) ∨
        ((∀ place ∉ files, w'.tree.content? place = w.tree.content? place) ∧ ¬ Reassures w' ∧
          ¬ ∃ w'', (Backup.restore ⟨(Path.absolute root).text, texts files⟩).run w = .ok () w''))
      fun _ _ => True := by
  simp only [recover, ends_bind, ends_tryCatch, ends_pure]
  refine (Backup.ends_restore hw hroot hfiles hnodup houtside).imp_run ?_ ?_
  · rintro _ w₁ - ⟨hevolves, hcopies⟩
    have hstays := hevolves.directories root hdirectory
    simp only [if_true, ends_bind, ends_printError]
    generalize w₁.transcript ++ _ = said
    refine (Backup.ends_discard (w := { w₁ with transcript := said }) (hevolves.linkless hw) hroot
      (hevolves.leads hleads) hstays hnul _).imp
      (fun _ w₂ hpruned => .inl fun place hplace => ?_) fun _ _ h => h.elim
    rw [hpruned.content hstays hplace]
    split
    · next hfile => exact hcopies place hfile
    · next hfile => exact hevolves.content place hfile
  · rintro failure w₁ hrun ⟨hdirect | ⟨error, rfl⟩, hevolves⟩
    · cases failure with
      | backupNotRestored directory error => cases hdirect
      | _ => exact ends_throw.2 trivial
    · simp only [ends_bind, ends_printError, ends_pure, Bool.false_eq_true, if_false]
      refine .inr ⟨hevolves.content, ?_, ?_⟩
      · have hspoken := not_reassures_of_evolves hevolves hsilent
        exact not_reassures_err (not_reassures_err hspoken (by simp [reassurances])) (by simp [reassurances])
      · rintro ⟨w'', hrestored⟩
        cases hrun.symm.trans hrestored

/-- A batch fails for want of a backup, or it fails while it writes and its backup can be restored. -/
inductive Undone (requests : List Request) (options : Options) (w : Workspace) : Prop
  | unsaved {directory : String} {error : DiskError} {w' : Workspace}
      (stops : (run requests options).run w = .error (.backupNotMade directory error) w')
  | restored {path : String} {error : DiskError} {backup : Backup} {w' w'' : Workspace}
      (stops : (run requests options).run w = .error (.notWritten path error backup) w')
      (restores : backup.restore.run w' = .ok () w'')

/-- What a failed write run leaves behind: everything outside the backup directory as it was, or else the
copies of the files, and then it neither claims the former nor was the batch undone. -/
inductive Fallback (undone : Prop) (root : Location) (files : List Location) (w w' : Workspace) : Prop
  | intact (outside : ∀ place, ¬ root <+: place → w'.tree.content? place = w.tree.content? place)
  | kept (outside : ∀ place ∉ files, ¬ root <+: place → w'.tree.content? place = w.tree.content? place)
      (copies : ∀ file ∈ files, w'.tree.content? (Backup.copyPlace root files file) = w.tree.content? file)
      (silent : ¬ Reassures w') (lasting : ¬ undone)

theorem Fallback.imp {undone undone' : Prop} (h : Fallback undone root files w w') (himp : undone' → undone) :
    Fallback undone' root files w w' := by
  cases h with
  | intact houtside => exact .intact houtside
  | kept houtside hcopies hsilent hlasting => exact .kept houtside hcopies hsilent fun h => hlasting (himp h)

/-- What a batch leaves behind: a report, with the files written if it was to write them, or nothing but what
a failed write run leaves. -/
inductive Batched (undone : Prop) (writes : Bool) (root : Location) (files : List FileReport) (w : Workspace) :
    Option Report → Workspace → Prop
  | unwritten {w' : Workspace} (idle : writes = false ∨ pendingWrites files = []) (logged : w.Logged w') :
      Batched undone writes root files w (some (.of files none)) w'
  | written {w' : Workspace} (asked : writes = true) (changes : pendingWrites files ≠ [])
      (commits : Commits root (pendingWrites files) w w')
      (content : ∀ change ∈ pendingWrites files,
        w'.tree.content? (placeOf change.1) = some (Utf8.encode change.2)) :
      Batched undone writes root files w
        (some (.of files (some ⟨(Path.absolute root).text, (pendingWrites files).map Prod.fst⟩))) w'
  | failed {w' : Workspace} (asked : writes = true)
      (fallback : (∀ file ∈ places (pendingWrites files), ¬ root <+: file) →
        Fallback undone root (places (pendingWrites files)) w w') :
      Batched undone writes root files w none w'

private theorem not_reassures_of_commits {pending : List (String × Text)} (h : Commits root pending w w')
    (hsilent : ¬ Reassures w) : ¬ Reassures w' := by
  obtain ⟨saved, hsaves, hevolves⟩ := h
  exact not_reassures_of_evolves hevolves (not_reassures_of_evolves hsaves.evolves hsilent)

/-- After a write that failed the files are put back, or their copies are kept. -/
theorem ends_recover_commit {undone : Prop} {pending : List (String × Text)} {w₁ : Workspace} (hw : w.tree.Linkless)
    (hroot : ∀ name ∈ root, IsName name) (hwritten : ∀ change ∈ pending, Written change.1) (hnodup : (places pending).Nodup)
    (houtside : ∀ file ∈ places pending, ¬ root <+: file) (hcommits : Commits root pending w w₁)
    (htree : w'.tree = w₁.tree) (hsilent : ¬ Reassures w')
    (hundone : undone → ∃ w'', (Backup.restore ⟨(Path.absolute root).text, pending.map Prod.fst⟩).run w' = .ok () w'') :
    (recover ⟨(Path.absolute root).text, pending.map Prod.fst⟩).Ends w'
      (fun _ w'' => Fallback undone root (places pending) w w'') fun _ _ => True := by
  have hothers : ∀ place ∉ places pending, ¬ root <+: place →
      w'.tree.content? place = w.tree.content? place := by
    intro place hplace hbelow
    rw [htree, hcommits.content hplace hbelow]
  obtain ⟨saved, hsaves, hevolves⟩ := hcommits
  have hlinkless := hevolves.linkless (hsaves.evolves.linkless hw)
  have hcopies : ∀ file ∈ places pending,
      w'.tree.content? (Backup.copyPlace root (places pending) file) = w.tree.content? file := by
    intro file hfile
    rw [htree, hevolves.content, hsaves.copies houtside file hfile]
    intro hcopy
    exact houtside _ hcopy (Backup.prefix_copyPlace root _ file)
  rw [← texts_places hwritten] at hundone ⊢
  refine (ends_recover (htree ▸ hlinkless) hroot (named_places hwritten) hnodup houtside
    (htree ▸ hevolves.leads hsaves.leads) (htree ▸ hevolves.directories root hsaves.directory) hsaves.readable
    hsilent).imp ?_ fun _ _ h => h
  rintro _ w'' (hrestored | ⟨hkept, hquiet, hunrestored⟩)
  · refine .intact fun place hplace => ?_
    rw [hrestored place hplace]
    split
    · next hfile => exact hcopies place hfile
    · next hfile => exact hothers place hfile hplace
  · refine .kept (fun place hplace hbelow => ?_) (fun file hfile => ?_) hquiet fun h => hunrestored (hundone h)
    · rw [hkept place hplace, hothers place hplace hbelow]
    · rw [hkept, hcopies file hfile]
      intro hcopy
      exact houtside _ hcopy (Backup.prefix_copyPlace root _ file)

theorem ends_rescue_of_isDirect {failure : Failure} (hdirect : failure.isDirect)
    {done : Option Report → Workspace → Prop} {failed : Failure → Workspace → Prop} (h : failed failure w) :
    (rescue failure).Ends w done failed := by
  cases failure with
  | notWritten path error backup => cases hdirect
  | backupNotMade directory error => cases hdirect
  | _ => exact ends_throw.2 h

/-- A commit that fails comes to nothing, or to what a failed write run may leave behind. -/
theorem ends_rescue {undone : Prop} {pending : List (String × Text)} {failure : Failure} (hw : w.tree.Linkless)
    (hroot : ∀ name ∈ root, IsName name) (hwritten : ∀ change ∈ pending, Written change.1)
    (hnodup : (places pending).Nodup) (hsilent : ¬ Reassures w) (haborts : Aborts root pending w failure w')
    (hundone : undone → ∀ path error backup, failure = .notWritten path error backup →
      ∃ w'', backup.restore.run w' = .ok () w'') :
    (rescue failure).Ends w'
      (fun result w'' => result = none ∧
        ((∀ file ∈ places pending, ¬ root <+: file) → Fallback undone root (places pending) w w''))
      fun _ _ => True := by
  cases haborts with
  | writing path error hcommits =>
    simp only [rescue, ends_bind, ends_printError, ends_pure]
    by_cases houtside : ∀ file ∈ places pending, ¬ root <+: file
    · have hquiet := not_reassures_of_commits hcommits hsilent
      refine (ends_recover_commit hw hroot hwritten hnodup houtside hcommits (by rfl)
        (not_reassures_notWritten hquiet) fun h => ?_).imp (fun _ _ h => ⟨trivial, fun _ => h⟩) fun _ _ h => h
      exact ((discreet_restore _).exists_run_eq_ok _).2 (hundone h _ _ _ rfl)
    · exact .of_forall (fun _ _ => ⟨trivial, fun h => absurd h houtside⟩) fun _ _ => trivial
  | saving error hevolves =>
    simp only [rescue, ends_bind, ends_printError, ends_pure]
    exact ⟨trivial, fun _ => .intact fun place hplace => hevolves.content place fun h => hplace h.1⟩
  | direct hdirect => exact ends_rescue_of_isDirect hdirect trivial

section Batch

variable {w₁ : Workspace} {elements : List Manifest.Element} {options : Options} {directory : String}

/-- A batch that was reviewed is committed if it may be. -/
theorem ends_run {undone : Prop} (h₁ : w.Logged w₁) (hw : w₁.Sound)
    (hchosen : Backup.chosenDirectory options.backupDirectory = .ok (.parse directory))
    (hroot : root = (Path.parse directory).destination w₁.directory.place)
    (hwritten : ∀ r ∈ requestsOf elements, Written r.file) :
    (run (requestsOf elements) options).Ends w₁
      (fun report w' => ∃ files w₂, (review (requestsOf elements)).run w₁ = .ok files w₂ ∧
        Reviews w.tree (requestsOf elements) files ∧
        Batched undone options.writesFiles root files w (some report) w')
      fun failure w' => (failure.isDirect ∧ w'.tree = w.tree) ∨
        ∃ files w₂, (review (requestsOf elements)).run w₁ = .ok files w₂ ∧
          Reviews w.tree (requestsOf elements) files ∧ options.writesFiles = true ∧
          Aborts root (pendingWrites files) w failure w' := by
  rw [run_eq, ends_bind]
  refine (ends_review hw hwritten).imp_run ?_ ?_
  · rintro files w₂ hrun ⟨hreviews, h₂⟩
    rw [h₁.tree] at hreviews
    have hlogged := h₁.trans h₂
    split
    · next hwrites =>
      simp only [Bool.and_eq_true, Bool.not_eq_true', List.isEmpty_eq_false_iff] at hwrites
      obtain ⟨hasked, hchanges⟩ := hwrites
      have hpending := written_of_mem_pendingWrites (hreviews.written hwritten)
      rw [← h₂.evolves.directory] at hroot
      simp only [ends_bind, ends_pure]
      refine (ends_commit hchosen (h₂.evolves.sound hw) hroot hpending (hreviews.nodup_places hwritten)).imp ?_ ?_
      · rintro backup w₃ ⟨rfl, hcommits, hcontent⟩
        exact ⟨files, w₂, hrun, hreviews, .written hasked hchanges (hcommits.of_logged hlogged) hcontent⟩
      · exact fun failure w₃ haborts => .inr ⟨files, w₂, hrun, hreviews, hasked, haborts.of_logged hlogged⟩
    · next hidle =>
      refine ends_pure.2 ⟨files, w₂, hrun, hreviews, .unwritten ?_ hlogged⟩
      simpa [or_iff_not_imp_left] using hidle
  · rintro failure w₂ - ⟨hdirect, h₂⟩
    exact .inl ⟨hdirect, (h₁.trans h₂).tree⟩

theorem ends_runBatch (h₁ : w.Logged w₁) (hw : w₁.Sound) (hsilent : ¬ Reassures w)
    (hchosen : Backup.chosenDirectory options.backupDirectory = .ok (.parse directory))
    (hroot : root = (Path.parse directory).destination w₁.directory.place)
    (hwritten : ∀ r ∈ requestsOf elements, Written r.file) :
    (runBatch elements options).Ends w₁
      (fun result w' => ∃ files w₂, (review (requestsOf elements)).run w₁ = .ok files w₂ ∧
        Reviews w.tree (requestsOf elements) files ∧
        Batched (Undone (requestsOf elements) options w₁) options.writesFiles root files w result w')
      fun _ w' => options.writesFiles = false → w'.tree = w.tree := by
  have hnamed : ∀ name ∈ root, IsName name :=
    hroot ▸ Path.isName_of_mem_destination (fun name => Path.isStep_of_mem_parse) hw.named
  have hlinkless : w.tree.Linkless := h₁.tree ▸ hw.linkless
  simp only [runBatch, ends_tryCatch, ends_bind, ends_pure]
  refine (ends_run h₁ hw hchosen hroot hwritten).imp_run (fun _ _ _ h => h) ?_
  rintro failure w₃ hrun (⟨hdirect, htree⟩ | ⟨files, w₂, hreview, hreviews, hasked, haborts⟩)
  · exact ends_rescue_of_isDirect hdirect fun _ => htree
  · have hpending := written_of_mem_pendingWrites (hreviews.written hwritten)
    have hundone : Undone (requestsOf elements) options w₁ → ∀ path error backup,
        failure = .notWritten path error backup → ∃ w'', backup.restore.run w₃ = .ok () w'' := by
      rintro hundone path error backup rfl
      cases hundone with
      | unsaved hstops => cases hrun.symm.trans hstops
      | restored hstops hrestores =>
        cases hrun.symm.trans hstops
        exact ⟨_, hrestores⟩
    refine (ends_rescue hlinkless hnamed hpending (hreviews.nodup_places hwritten) hsilent haborts hundone).imp ?_ ?_
    · rintro _ w₄ ⟨rfl, hfallback⟩
      exact ⟨files, w₂, hreview, hreviews, .failed hasked hfallback⟩
    · exact fun _ _ _ hidle => absurd hasked (by simp [hidle])

end Batch

end TagStamp.CommandLine
