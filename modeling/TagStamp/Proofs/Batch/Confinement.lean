import TagStamp.Proofs.Backup.RoundTrip
import TagStamp.Proofs.Batch.Isolation

namespace TagStamp

namespace Action

variable {α β : Type}

/-- The action does not fail for want of a backup. -/
def NeedsNoBackup (a : Action α) : Prop :=
  ∀ w, a.Ends w (fun _ _ => True) fun failure _ => ∀ directory error, failure ≠ .backupNotMade directory error

theorem NeedsNoBackup.ends {a : Action α} (h : NeedsNoBackup a) (w : Workspace)
    {kept : String → DiskError → Workspace → Prop} :
    a.Ends w (fun _ _ => True)
      fun failure w' => ∀ directory error, failure = .backupNotMade directory error → kept directory error w' :=
  (h w).imp (fun _ _ h => h) fun _ _ h directory error heq => absurd heq (h directory error)

theorem ne_backupNotMade_of_isDirect {failure : Failure} (h : failure.isDirect) (directory : String)
    (error : DiskError) : failure ≠ .backupNotMade directory error := by
  rintro rfl
  cases h

theorem needsNoBackup_pure (x : α) : NeedsNoBackup (pure x : Action α) :=
  fun _ => ends_pure.2 trivial

theorem needsNoBackup_throw {failure : Failure} (h : ∀ directory error, failure ≠ .backupNotMade directory error) :
    NeedsNoBackup (throw failure : Action α) :=
  fun _ => ends_throw.2 h

theorem NeedsNoBackup.bind {a : Action α} {f : α → Action β} (ha : NeedsNoBackup a)
    (hf : ∀ x, NeedsNoBackup (f x)) : NeedsNoBackup (a >>= f) :=
  fun w => ends_bind.2 ((ha w).imp (fun x w' _ => hf x w') fun _ _ h => h)

theorem NeedsNoBackup.tryCatch {a : Action α} {handler : Failure → Action α} (ha : NeedsNoBackup a)
    (hhandler : ∀ failure, (∀ directory error, failure ≠ .backupNotMade directory error) →
      NeedsNoBackup (handler failure)) : NeedsNoBackup (tryCatch a handler) :=
  fun w => ends_tryCatch.2 ((ha w).imp (fun _ _ h => h) fun failure w' h => hhandler failure h w')

theorem NeedsNoBackup.onDisk {a : Action α} {handler : DiskError → Action α} (ha : NeedsNoBackup a)
    (hhandler : ∀ error, NeedsNoBackup (handler error)) : NeedsNoBackup (onDisk a handler) := by
  refine ha.tryCatch fun failure hfailure => ?_
  cases failure with
  | disk error => exact hhandler error
  | _ => exact needsNoBackup_throw hfailure

theorem NeedsNoBackup.mapM {xs : List β} {f : β → Action α} (hf : ∀ x, NeedsNoBackup (f x)) :
    NeedsNoBackup (xs.mapM f) := by
  induction xs with
  | nil => exact needsNoBackup_pure []
  | cons x rest ih =>
    rw [List.mapM_cons]
    exact (hf x).bind fun y => ih.bind fun ys => needsNoBackup_pure (y :: ys)

theorem NeedsNoBackup.forM {xs : List β} {f : β → Action Unit} (hf : ∀ x, NeedsNoBackup (f x)) :
    NeedsNoBackup (xs.forM f) := by
  induction xs with
  | nil => exact needsNoBackup_pure ()
  | cons x rest ih => exact (hf x).bind fun _ => ih

theorem needsNoBackup_get : NeedsNoBackup (get : Action Workspace) :=
  fun _ => ends_get.2 trivial

theorem needsNoBackup_say (output : Output) : NeedsNoBackup (say output) :=
  fun _ => ends_say.2 trivial

theorem needsNoBackup_look (aim : Aim) (path : String) : NeedsNoBackup (look aim path) :=
  fun _ => ends_look.2 trivial

theorem needsNoBackup_setTree (tree : FileTree) : NeedsNoBackup (setTree tree) :=
  fun _ => trivial

theorem needsNoBackup_refuse (error : FileError) (path : String) : NeedsNoBackup (refuse error path : Action α) :=
  needsNoBackup_throw (ne_backupNotMade_of_isDirect rfl)

theorem needsNoBackup_checkPath (path : String) : NeedsNoBackup (checkPath path) := by
  unfold checkPath
  split
  · exact needsNoBackup_throw (ne_backupNotMade_of_isDirect rfl)
  · exact needsNoBackup_pure ()

theorem needsNoBackup_readFile (path : String) : NeedsNoBackup (readFile path) :=
  fun _ => (ends_readFile_found path).imp (fun _ _ _ => trivial) fun _ _ h => ne_backupNotMade_of_isDirect h.1

theorem needsNoBackup_writeFile (path : String) (content : List UInt8) : NeedsNoBackup (writeFile path content) := by
  refine (needsNoBackup_checkPath path).bind fun _ => needsNoBackup_get.bind fun w =>
    (needsNoBackup_look .writing path).bind fun walk => ?_
  split
  · exact needsNoBackup_setTree _
  · exact needsNoBackup_refuse _ _
  · exact needsNoBackup_refuse _ _
  · exact needsNoBackup_setTree _
  · exact needsNoBackup_refuse _ _

theorem needsNoBackup_interrupt (cause : Interruption) (path : String) : NeedsNoBackup (interrupt cause path) := by
  have hstop : NeedsNoBackup (throw (.disk cause.error) : Action Unit) :=
    needsNoBackup_throw (ne_backupNotMade_of_isDirect rfl)
  unfold interrupt
  split
  · exact (needsNoBackup_writeFile path _).bind fun _ => hstop
  · exact hstop

theorem needsNoBackup_workingDirectory : NeedsNoBackup workingDirectory := by
  refine needsNoBackup_get.bind fun w => ?_
  split
  · exact needsNoBackup_throw (ne_backupNotMade_of_isDirect rfl)
  · exact needsNoBackup_pure _

theorem needsNoBackup_settle (resolved : Path) : NeedsNoBackup (settle resolved) := by
  refine (needsNoBackup_checkPath _).bind fun _ => (needsNoBackup_look _ _).bind fun walk => ?_
  split
  · exact needsNoBackup_throw (ne_backupNotMade_of_isDirect rfl)
  · exact needsNoBackup_pure _

theorem needsNoBackup_resolve (path : Path) : NeedsNoBackup (resolve path) := by
  rw [resolve_eq]
  refine needsNoBackup_get.bind fun w => ?_
  split
  · exact needsNoBackup_throw (ne_backupNotMade_of_isDirect rfl)
  all_goals
    refine NeedsNoBackup.bind ?_ fun base => needsNoBackup_settle _
    split
    · exact needsNoBackup_workingDirectory
    · exact needsNoBackup_pure []

end Action

open TagStamp.Action

-- unfolding it would run the action
seal Action.Ends

namespace Backup

/-- The setting asks for the backup directory at the given place. -/
def AsksFor (setting : Json) (w : Workspace) (root : Location) : Prop :=
  ∃ path, chosenDirectory setting = .ok path ∧ (resolve path).run w = .ok (.absolute root) w

/-- The setting asks for the given backup directory, and outside of it no file is created, changed or removed. -/
def Confined (setting : Json) (directory : String) (w w' : Workspace) : Prop :=
  ∃ root, AsksFor setting w root ∧ directory = (Path.absolute root).text ∧
    ∀ place, ¬ Inside root place → w'.tree.content? place = w.tree.content? place

variable {w w' : Workspace} {setting : Json}

private theorem isDirect_of_chosenDirectory {failure : Failure} (h : chosenDirectory setting = .error failure) :
    failure.isDirect := by
  unfold chosenDirectory at h
  split at h
  · cases h
  · split at h
    · cases h
    all_goals
      cases h
      rfl

/-- A backup is made, or fails as one, only after its directory was found. -/
theorem ends_create_asksFor {directory : String} (hchosen : chosenDirectory setting = .ok (.parse directory))
    (hw : w.tree.Linkless) (paths : List String) :
    (create paths setting).Ends w
      (fun _ _ => AsksFor setting w ((Path.parse directory).destination w.directory.place))
      fun failure _ => failure.isDirect ∨ AsksFor setting w ((Path.parse directory).destination w.directory.place) := by
  rw [create, ends_bind, ends_ofExcept, hchosen]
  dsimp only
  rw [ends_bind]
  refine (ends_resolve hw fun name => Path.isStep_of_mem_parse).imp_run ?_ fun _ _ _ h => .inl h.1
  rintro _ w' hrun ⟨rfl, -, rfl⟩
  have hasks : AsksFor setting w' ((Path.parse directory).destination w'.directory.place) := ⟨_, hchosen, hrun⟩
  exact .of_forall (fun _ _ => hasks) fun _ _ => .inr hasks

theorem ends_create_confined (hw : w.tree.Linkless) (hnamed : ∀ name ∈ w.directory.place, IsName name)
    (paths : List String) (setting : Json) :
    (create paths setting).Ends w (fun backup w' => Confined setting backup.directory w w')
      fun failure w' => ∀ directory error, failure = .backupNotMade directory error →
        Confined setting directory w w' := by
  cases hchosen : chosenDirectory setting with
  | error failure =>
    rw [create, ends_bind, ends_ofExcept, hchosen]
    intro directory error heq
    exact absurd heq (ne_backupNotMade_of_isDirect (isDirect_of_chosenDirectory hchosen) directory error)
  | ok path =>
    obtain ⟨chosen, rfl⟩ := chosenDirectory_eq_ok hchosen
    refine ((ends_create hchosen hw hnamed rfl rfl).and (ends_create_asksFor hchosen hw paths)).imp ?_ ?_
    · rintro _ w' ⟨⟨rfl, hsaves, -⟩, hasks⟩
      exact ⟨_, hasks, rfl, hsaves.evolves.content⟩
    · rintro _ w' ⟨⟨hfailure, hevolves⟩, hasks⟩ directory error rfl
      have hindirect : ¬ (Failure.backupNotMade directory error).isDirect = true := Bool.false_ne_true
      obtain ⟨error', heq⟩ := hfailure.resolve_left hindirect
      exact ⟨_, hasks.resolve_left hindirect, (Failure.backupNotMade.inj heq).1, hevolves.content⟩

end Backup

namespace Batch

open Backup

variable {w w' : Workspace} {setting : Json}

section Failures

theorem needsNoBackup_displayPath (file : String) : NeedsNoBackup (displayPath file) := by
  refine NeedsNoBackup.bind (.tryCatch ?_ fun failure hfailure => ?_) fun shown => needsNoBackup_pure _
  · exact (needsNoBackup_resolve _).bind fun resolved =>
      needsNoBackup_workingDirectory.bind fun place => needsNoBackup_pure _
  · split
    · exact needsNoBackup_pure none
    · exact needsNoBackup_throw hfailure

theorem needsNoBackup_readSource (file : String) : NeedsNoBackup (readSource file) := by
  refine NeedsNoBackup.onDisk ((needsNoBackup_checkPath file).bind fun _ => needsNoBackup_get.bind fun w => ?_)
    fun error => needsNoBackup_pure _
  split
  · exact needsNoBackup_throw (ne_backupNotMade_of_isDirect rfl)
  refine (needsNoBackup_readFile file).bind fun octets => ?_
  split
  all_goals exact needsNoBackup_pure _

theorem needsNoBackup_annotate (group : String × List Stamp.Target) : NeedsNoBackup (annotate group) := by
  refine (needsNoBackup_readSource group.1).bind fun result => ?_
  split
  · exact (needsNoBackup_say _).bind fun _ => needsNoBackup_pure none
  refine (NeedsNoBackup.forM fun entry => needsNoBackup_say _).bind fun _ => ?_
  dsimp only
  split
  · exact (needsNoBackup_displayPath _).bind fun shown => (needsNoBackup_pure _).bind fun patch =>
      (needsNoBackup_say _).bind fun _ => needsNoBackup_pure _
  · exact (needsNoBackup_pure _).bind fun patch => (needsNoBackup_say _).bind fun _ => needsNoBackup_pure _

theorem needsNoBackup_review (requests : List Request) : NeedsNoBackup (review requests) :=
  (NeedsNoBackup.mapM needsNoBackup_annotate).bind fun _ => needsNoBackup_pure _

theorem needsNoBackup_writeSource (file : String) (text : Text) : NeedsNoBackup (writeSource file text) := by
  refine needsNoBackup_get.bind fun w => ?_
  dsimp only
  split
  · exact (needsNoBackup_interrupt _ _).bind fun _ => needsNoBackup_writeFile _ _
  · exact needsNoBackup_writeFile _ _

end Failures

/-- What was logged before makes no difference to where the backup directory is. -/
theorem asksFor_of_logging {entries : List Log.Entry} {root : Location} (h : AsksFor setting (logging w entries) root) :
    AsksFor setting w root := by
  obtain ⟨path, hchosen, hrun⟩ := h
  refine ⟨path, hchosen, run_eq_ok_iff.2 ?_⟩
  have hsame := (silent_resolve path w _ _ _).1 (run_eq_ok_iff.1 hrun)
  exact (hsame.and (ends_resolve_same path)).imp (fun _ _ h => ⟨h.1.1, h.2.2⟩) fun _ _ h => h.1

private theorem confined_of_logging {entries : List Log.Entry} {directory : String}
    (h : Confined setting directory (logging w entries) w') : Confined setting directory w w' := by
  obtain ⟨root, hasks, hdirectory, houtside⟩ := h
  exact ⟨root, asksFor_of_logging hasks, hdirectory, houtside⟩

/-- A commit that fails for want of a backup has not written anything. -/
theorem ends_commit_confined (hw : w.tree.Linkless) (hnamed : ∀ name ∈ w.directory.place, IsName name)
    (pending : List (String × Text)) (setting : Json) :
    (commit pending setting).Ends w (fun _ _ => True)
      fun failure w' => ∀ directory error, failure = .backupNotMade directory error →
        Confined setting directory w w' := by
  rw [commit, ends_bind]
  refine (ends_create_confined hw hnamed _ setting).imp (fun backup w₁ _ => ?_) fun _ _ h => h
  refine NeedsNoBackup.ends (.bind (.forM fun change => ?_) fun _ => .bind (needsNoBackup_say _) fun _ =>
    needsNoBackup_pure backup) w₁
  refine (needsNoBackup_writeSource _ _).onDisk fun error => needsNoBackup_throw fun directory error' heq => ?_
  cases heq

/-- A backup changes no file outside of its directory, whether it is made or fails on the way. So if a batch fails for
want of a backup, every file outside of the backup directory holds what it held before. -/
theorem backup_stays_in_directory {w : Workspace} (hw : w.tree.Linkless)
    (hnamed : ∀ name ∈ w.directory.place, IsName name) :
    (∀ (paths : List String) (setting : Json), (create paths setting).Ends w
      (fun backup w' => Confined setting backup.directory w w')
      fun failure w' => ∀ directory error, failure = .backupNotMade directory error →
        Confined setting directory w w') ∧
    ∀ (requests : List Request) (options : Options), (run requests options).Ends w (fun _ _ => True)
      fun failure w' => ∀ directory error, failure = .backupNotMade directory error →
        Confined options.backupDirectory directory w w' := by
  refine ⟨ends_create_confined hw hnamed, fun requests options => ?_⟩
  rw [run_eq, ends_bind]
  refine ((ends_review_tells w requests).and ((needsNoBackup_review requests).ends w)).imp ?_ fun _ _ h => h.2
  rintro files _ ⟨⟨-, -, rfl⟩, -⟩
  split
  · rw [ends_bind]
    have hcommit := ends_commit_confined (w := logging w (entriesFor w requests)) hw hnamed (pendingWrites files)
      options.backupDirectory
    refine hcommit.imp (fun _ _ _ => ?_) fun _ _ h directory error heq => ?_
    · exact ends_pure.2 trivial
    · exact confined_of_logging (h directory error heq)
  · exact ends_pure.2 trivial

/-- Two pages in a directory; the copy of the second one cannot be written to its end. -/
def attic : Workspace where
  tree := ⟨[(["p"], .directory), (["p", "a"], .file (Utf8.encode "<a>".toList)),
    (["p", "b"], .file (Utf8.encode "<b>".toList))]⟩
  directory := ⟨["p"], 0⟩
  faults := { copy := fun path => if path = "/p/.uic-backup/b" then some { message := "disk full", residue := some [] } else none }

theorem backup_stays_in_directory_of_attic :
    attic.tree.Linkless ∧
    (∃ backup w', (create ["a"] .null).run attic = .ok backup w' ∧ Confined .null backup.directory attic w') ∧
    (∃ directory error w', (create ["a", "b"] .null).run attic = .error (.backupNotMade directory error) w' ∧
      w'.tree.content? ["p", ".uic-backup", "b"] = some [] ∧ Confined .null directory attic w') ∧
    ∃ directory error w', (run [ask "a" 1 "a" "v", ask "b" 1 "b" "w"] { dryRun := false, write := true }).run attic =
        .error (.backupNotMade directory error) w' ∧
      Confined (.text defaultDirectory) directory attic w' := by
  have hplain : attic.tree.Plain := by decide +kernel
  have hmade : (create ["a"] .null).Ends attic (fun _ _ => True) fun _ _ => False := by decide +kernel
  have hstopped : (create ["a", "b"] .null).Ends attic (fun _ _ => False)
      fun failure w' => failure = .backupNotMade "/p/.uic-backup" (.outside "disk full" false) ∧
        w'.tree.content? ["p", ".uic-backup", "b"] = some [] := by
    decide +kernel
  have haborted : (run [ask "a" 1 "a" "v", ask "b" 1 "b" "w"] { dryRun := false, write := true }).Ends attic
      (fun _ _ => False) fun failure _ => failure = .backupNotMade "/p/.uic-backup" (.outside "disk full" false) := by
    decide +kernel
  obtain ⟨hcreate, hrun⟩ := backup_stays_in_directory hplain.linkless (by decide +kernel)
  refine ⟨hplain.linkless, ?_, ?_, ?_⟩
  · obtain ⟨backup, w', hok, -⟩ := hmade.exists_ok
    exact ⟨backup, w', hok, (hcreate ["a"] .null).ok hok⟩
  · obtain ⟨_, w', herror, rfl, hcopy⟩ := hstopped.exists_error
    exact ⟨_, _, w', herror, hcopy, (hcreate ["a", "b"] .null).error herror _ _ rfl⟩
  · obtain ⟨_, w', herror, rfl⟩ := haborted.exists_error
    exact ⟨_, _, w', herror, (hrun _ _).error herror _ _ rfl⟩

end Batch

end TagStamp
