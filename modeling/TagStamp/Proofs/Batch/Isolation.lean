import Mathlib.Algebra.GroupWithZero.Nat
import TagStamp.Proofs.Batch.Commit
import TagStamp.Proofs.Workspace.Transcript

namespace TagStamp.Batch

open TagStamp.Action

-- unfolding it would run the action
seal Action.Ends

section Grouping

private theorem groupByFile_concat (requests : List Request) (r : Request) :
    groupByFile (requests ++ [r]) = addTo (groupByFile requests) r := by
  rw [groupByFile, List.foldl_append]
  rfl

theorem map_fst_groupByFile (requests : List Request) :
    (groupByFile requests).map Prod.fst = (requests.map Request.file).eraseDups := by
  induction requests using List.reverseRecOn with
  | nil => rfl
  | append_singleton requests r ih =>
    rw [groupByFile_concat, map_fst_addTo, List.map_append, List.map_singleton, eraseDups_concat, ih]
    simp only [List.mem_eraseDups]

/-- The groups are the files in the order of their first appearance, each with its targets. -/
theorem groupByFile_eq (requests : List Request) :
    groupByFile requests = (requests.map Request.file).eraseDups.map fun file => (file, targetsIn requests file) := by
  rw [← map_fst_groupByFile, List.map_map]
  conv_lhs => rw [← List.map_id (groupByFile requests)]
  refine List.map_congr_left fun group hgroup => ?_
  rw [Function.comp_apply, ← (groups_groupByFile requests).targets group hgroup, id]

private theorem groupByFile_filter (keep : String → Bool) (requests : List Request) :
    groupByFile (requests.filter fun r => keep r.file) = (groupByFile requests).filter fun group => keep group.1 := by
  have hfiles : (requests.filter fun r => keep r.file).map Request.file = (requests.map Request.file).filter keep := by
    rw [List.filter_map]
    rfl
  rw [groupByFile_eq, groupByFile_eq, hfiles, eraseDups_filter, List.filter_map]
  refine List.map_congr_left fun file hfile => ?_
  have hkeep : keep file = true := (List.mem_filter.1 hfile).2
  have hsame : (requests.filter fun r => keep r.file).filter (·.file = file) = requests.filter (·.file = file) := by
    rw [List.filter_filter]
    refine List.filter_congr fun r _ => ?_
    by_cases heq : r.file = file
    · simp [heq, hkeep]
    · simp [heq]
  rw [targetsIn, targetsIn, hsame]

end Grouping

/-- The text that a path leads to, or why there is none. -/
def textAt (w : Workspace) (file : String) : Except String Text :=
  match w.faults.read file with
  | some cause => .error cause.error.message
  | none =>
    match w.tree.locate w.directory .target file with
    | .found _ (.file octets) => (Utf8.decode octets).mapError Utf8.Error.message
    | .found _ .directory => .error (DiskError.refused .isDirectory file).message
    | .found _ (.link _) => .error (DiskError.refused .tooManyLinks file).message
    | .free _ _ => .error (DiskError.refused .noEntry file).message
    | .refused error => .error (DiskError.refused error file).message

/-- Whether a path leads to a file that holds a text. -/
def isReadable (w : Workspace) (file : String) : Bool :=
  (textAt w file).isOk

/-- The path that a diff shows for a file, or why none can be given. -/
def shownAs (w : Workspace) (file : String) : Except Failure String :=
  ((displayPath file).effect w).1

/-- What a report tells of a file: what the targets make of its text. -/
structure Tells (w : Workspace) (targets : List Stamp.Target) (source : Text) (report : FileReport) : Prop where
  read : textAt w report.file = .ok source
  applied : report.applied = (Stamp.run source targets).applied
  skipped : report.skipped = (Stamp.run source targets).skipped
  unmodified : (Stamp.run source targets).modified = false → report.patch = none
  modified : (Stamp.run source targets).modified = true → ∃ shown, shownAs w report.file = .ok shown ∧
    report.patch = some (.of shown source (Stamp.run source targets).text)

/-- What a group comes to: a report on its file if there is a text, nothing if there is none. -/
def Contributes (w : Workspace) (group : String × List Stamp.Target) : Option FileReport → Prop
  | none => isReadable w group.1 = false
  | some report => report.file = group.1 ∧ ∃ source, Tells w group.2 source report

/-- What is logged about a group: a single warning if its file has no text. -/
def entriesOn (w : Workspace) (group : String × List Stamp.Target) : List Log.Entry :=
  match textAt w group.1 with
  | .error reason => [⟨.warning, "Could not read \"" ++ group.1 ++ "\", skipping: " ++ reason⟩]
  | .ok source =>
    let result := Stamp.run source group.2
    result.log ++ [⟨.debug, group.1 ++ ": applied=" ++ toString result.applied ++ " skipped=" ++
      toString result.skipped⟩]

/-- What keeps a review from going on: a path that no file system takes, or a text whose path cannot be shown. -/
def Stops (w : Workspace) (file : String) : Prop :=
  '\x00' ∈ file.toList ∨ isReadable w file = true ∧ ∀ shown, shownAs w file ≠ .ok shown

/-- The workspace with further entries in the log. -/
def logging (w : Workspace) (entries : List Log.Entry) : Workspace :=
  w.recalling (w.transcript ++ entries.map .log)

variable {w : Workspace} {file : String} {group : String × List Stamp.Target} {requests : List Request}

section Transcript

theorem silent_layout (files : List String) : Silent (Backup.layout files) := by
  have hancestor : Silent (Backup.ancestor files) := by
    unfold Backup.ancestor
    split
    · exact silent_workingDirectory.bind fun place => silent_pure _
    · exact silent_pure _
  refine hancestor.bind fun base => .mapM fun path => Silent.bind ?_ fun relative => silent_pure _
  unfold Backup.below
  split
  · exact silent_pure _
  · exact silent_throw _

theorem silent_save (root : Path) (file : Path × Path) : Silent (Backup.save root file) :=
  (silent_makeDirectories _).bind fun _ => silent_copyFile _ _

theorem silent_writeSource (file : String) (text : Text) : Silent (writeSource file text) := by
  refine .get_bind (fun _ _ => rfl) fun w => ?_
  dsimp only
  split
  · exact (silent_interrupt _ _).bind fun _ => silent_writeFile _ _
  · exact silent_writeFile _ _

theorem silent_displayPath (file : String) : Silent (displayPath file) := by
  refine Silent.bind (.tryCatch ?_ fun failure => ?_) fun shown => silent_pure _
  · exact (silent_resolve _).bind fun resolved => silent_workingDirectory.bind fun place => silent_pure _
  · split
    · exact silent_pure none
    · exact silent_throw failure

theorem notes_create (paths : List String) (setting : Json) : Notes .info (Backup.create paths setting) := by
  have hfill (root : Path) (files : List String) :
      Silent (onDisk (do makeDirectories root; (← Backup.layout files).forM (Backup.save root))
        fun error => throw (.backupNotMade root.text error)) :=
    Silent.onDisk ((silent_makeDirectories root).bind fun _ => (silent_layout files).bind fun parts =>
      .forM (silent_save root)) fun error => silent_throw _
  exact ((silent_ofExcept _).notes _).bind fun chosen => ((silent_resolve chosen).notes _).bind fun root =>
    ((Silent.mapM fun path => silent_resolve _).notes _).bind fun resolved =>
      ((hfill root _).notes _).bind fun _ => (notes_log _ _).bind fun _ => (silent_pure _).notes _

theorem notes_commit (pending : List (String × Text)) (setting : Json) : Notes .info (commit pending setting) := by
  refine (notes_create _ _).bind fun backup => Notes.bind (Silent.notes ?_ _) fun _ =>
    (notes_log _ _).bind fun _ => (silent_pure _).notes _
  exact .forM fun change => (silent_writeSource _ _).onDisk fun error => silent_throw _

end Transcript

theorem logging_nil (w : Workspace) : logging w [] = w := by
  rw [logging, List.map_nil, List.append_nil]
  rfl

theorem logging_logging (w : Workspace) (entries entries' : List Log.Entry) :
    logging (logging w entries) entries' = logging w (entries ++ entries') := by
  simp [logging, Workspace.recalling]

theorem logged_logging (w : Workspace) (entries : List Log.Entry) : w.Logged (logging w entries) :=
  ⟨entries, rfl⟩

theorem shownAs_logging (w : Workspace) (entries : List Log.Entry) (file : String) :
    shownAs (logging w entries) file = shownAs w file := by
  rw [shownAs, logging, (silent_displayPath file).discreet]
  rfl

private theorem stops_logging {entries : List Log.Entry} : Stops (logging w entries) file ↔ Stops w file := by
  simp only [Stops, shownAs_logging]
  rfl

/-- What was logged before a group makes no difference to it. -/
theorem Contributes.of_logging {entries : List Log.Entry} {result : Option FileReport}
    (h : Contributes (logging w entries) group result) : Contributes w group result := by
  cases result with
  | none => exact h
  | some report =>
    obtain ⟨hfile, source, htells⟩ := h
    have hmodified := htells.modified
    rw [shownAs_logging] at hmodified
    exact ⟨hfile, source, htells.read, htells.applied, htells.skipped, htells.unmodified, hmodified⟩

/-- Reading a file gives its text, and changes nothing. -/
theorem ends_readSource_textAt (w : Workspace) (file : String) :
    (readSource file).Ends w (fun result w' => result = textAt w file ∧ w' = w)
      fun _ w' => '\x00' ∈ file.toList ∧ w' = w := by
  simp only [readSource, readFile, ends_onDisk, ends_bind, ends_checkPath, List.contains_iff_mem, ends_get]
  split
  · next hnul => exact ⟨hnul, trivial⟩
  next hnul =>
  unfold textAt
  cases w.faults.read file with
  | some cause => exact ends_throw.2 (ends_pure.2 ⟨rfl, rfl⟩)
  | none =>
  simp only [ends_bind, ends_checkPath, List.contains_iff_mem, hnul, if_false, ends_look]
  cases w.tree.locate w.directory .target file with
  | found here entry =>
    cases entry with
    | directory => exact ends_throw.2 (ends_pure.2 ⟨rfl, rfl⟩)
    | link target => exact ends_throw.2 (ends_pure.2 ⟨rfl, rfl⟩)
    | file octets =>
      rw [ends_pure]
      dsimp only
      cases Utf8.decode octets with
      | ok text => exact ends_pure.2 ⟨rfl, rfl⟩
      | error error => exact ends_pure.2 ⟨rfl, rfl⟩
  | free directory name => exact ends_throw.2 (ends_pure.2 ⟨rfl, rfl⟩)
  | refused error => exact ends_throw.2 (ends_pure.2 ⟨rfl, rfl⟩)

theorem ends_displayPath_shownAs (w : Workspace) (file : String) :
    (displayPath file).Ends w (fun shown w' => shownAs w file = .ok shown ∧ w' = w)
      fun failure w' => shownAs w file = .error failure ∧ w' = w := by
  have hsame : (displayPath file).Ends w (fun _ w' => w' = w) fun _ w' => w' = w := by
    simp only [displayPath, ends_bind, ends_tryCatch, ends_pure, ends_workingDirectory]
    refine (ends_resolve_same _).imp ?_ ?_
    · rintro resolved _ ⟨-, rfl⟩
      split
      · exact ends_throw.2 rfl
      · trivial
    · rintro failure _ rfl
      split
      · exact ends_pure.2 rfl
      · exact ends_throw.2 rfl
  refine (hsame.and (ends_effect (displayPath file) w)).imp ?_ ?_
  all_goals
    rintro _ _ ⟨rfl, heffect⟩
    exact ⟨by rw [shownAs, heffect], rfl⟩

private theorem ends_forM_say (entries : List Log.Entry) :
    (entries.forM fun entry => say (.log entry)).Ends w (fun _ w' => w' = logging w entries) fun _ _ => False := by
  induction entries generalizing w with
  | nil => exact ends_pure.2 (logging_nil w).symm
  | cons entry rest ih =>
    rw [ends_forM_cons, ends_say]
    refine ih.imp ?_ fun _ _ h => h
    rintro _ _ rfl
    exact logging_logging w [entry] rest

/-- Annotating a file looks at nothing but its text and its path, and only logs. -/
theorem ends_annotate_contributes (w : Workspace) (group : String × List Stamp.Target) :
    (annotate group).Ends w
      (fun result w' => Contributes w group result ∧ w' = logging w (entriesOn w group))
      fun _ w' => Stops w group.1 ∧ w.Logged w' := by
  obtain ⟨file, targets⟩ := group
  simp only [annotate, ends_bind]
  refine (ends_readSource_textAt w file).imp ?_ (by rintro _ _ ⟨hnul, rfl⟩; exact ⟨.inl hnul, .refl _⟩)
  rintro result _ ⟨hresult, rfl⟩
  cases result with
  | error reason =>
    simp only [ends_bind, ends_log, ends_pure, entriesOn, ← hresult]
    exact ⟨by rw [Contributes, isReadable, ← hresult]; rfl, rfl⟩
  | ok source =>
    simp only [ends_bind, entriesOn, ← hresult]
    refine (ends_forM_say _).imp ?_ fun _ _ h => h.elim
    rintro _ _ rfl
    split
    · next hmodified =>
      simp only [ends_bind, ends_pure, ends_log]
      refine (ends_displayPath_shownAs _ file).imp ?_ ?_
      · rintro shown _ ⟨hshown, rfl⟩
        rw [shownAs_logging] at hshown
        exact ⟨⟨rfl, source, hresult.symm, rfl, rfl, by simp [hmodified], fun _ => ⟨shown, hshown, rfl⟩⟩,
          logging_logging _ _ [_]⟩
      · rintro failure _ ⟨hshown, rfl⟩
        rw [shownAs_logging] at hshown
        refine ⟨.inr ⟨by rw [isReadable, ← hresult]; rfl, fun shown => ?_⟩, logged_logging _ _⟩
        simp [hshown]
    · next hunmodified =>
      simp only [ends_bind, ends_pure, ends_log]
      exact ⟨⟨rfl, source, hresult.symm, rfl, rfl, fun _ => rfl, fun h => absurd h hunmodified⟩,
        logging_logging _ _ [_]⟩

/-- Each group is looked at in the tree as it was found. -/
theorem ends_mapM_annotate (groups : List (String × List Stamp.Target)) :
    (groups.mapM annotate).Ends w
      (fun results w' => List.Forall₂ (Contributes w) groups results ∧ w' = logging w (groups.flatMap (entriesOn w)))
      fun _ w' => (∃ group ∈ groups, Stops w group.1) ∧ w.Logged w' := by
  induction groups generalizing w with
  | nil => exact ends_pure.2 ⟨.nil, (logging_nil w).symm⟩
  | cons group rest ih =>
    rw [ends_mapM_cons]
    refine (ends_annotate_contributes w group).imp ?_ fun _ _ h => ⟨⟨group, List.mem_cons_self, h.1⟩, h.2⟩
    rintro result _ ⟨hresult, rfl⟩
    -- the others find the same tree and a longer log
    refine ih.imp ?_ ?_
    · rintro results _ ⟨hresults, rfl⟩
      refine ⟨.cons hresult (hresults.imp fun _ _ => Contributes.of_logging), ?_⟩
      rw [List.flatMap_cons, logging_logging]
      rfl
    · rintro _ _ ⟨⟨other, hother, hstops⟩, hlogged⟩
      exact ⟨⟨other, List.mem_cons_of_mem group hother, stops_logging.1 hstops⟩, (logged_logging w _).trans hlogged⟩

theorem Tells.isReadable {targets : List Stamp.Target} {source : Text} {report : FileReport}
    (h : Tells w targets source report) : isReadable w report.file = true := by
  rw [Batch.isReadable, h.read]
  rfl

/-- The reports are on the files with a text, in the order of the groups. -/
theorem files_of_contributes {groups : List (String × List Stamp.Target)} {results : List (Option FileReport)}
    (h : List.Forall₂ (Contributes w) groups results) :
    (results.filterMap id).map FileReport.file = (groups.map Prod.fst).filter (isReadable w) ∧
      ∀ report ∈ results.filterMap id, ∃ group ∈ groups, report.file = group.1 ∧
        ∃ source, Tells w group.2 source report := by
  induction h with
  | nil => simp
  | @cons group result groups results hresult _ ih =>
    cases result with
    | none =>
      have hunreadable : ¬ isReadable w group.1 = true := by simpa [Contributes] using hresult
      rw [List.map_cons, List.filter_cons_of_neg hunreadable]
      refine ⟨ih.1, fun report hreport => ?_⟩
      obtain ⟨group', hgroup', htells⟩ := ih.2 report hreport
      exact ⟨group', List.mem_cons_of_mem _ hgroup', htells⟩
    | some first =>
      obtain ⟨hfile, source, htells⟩ := hresult
      have hreadable : isReadable w group.1 = true := hfile ▸ htells.isReadable
      rw [List.map_cons, List.filter_cons_of_pos hreadable, List.filterMap_cons, id, List.map_cons, ih.1, hfile]
      refine ⟨rfl, List.forall_mem_cons.2 ⟨⟨group, List.mem_cons_self, hfile, source, htells⟩, ?_⟩⟩
      intro report hreport
      obtain ⟨group', hgroup', htells'⟩ := ih.2 report hreport
      exact ⟨group', List.mem_cons_of_mem _ hgroup', htells'⟩

/-- What a review logs, file by file. -/
def entriesFor (w : Workspace) (requests : List Request) : List Log.Entry :=
  (requests.map Request.file).eraseDups.flatMap fun file => entriesOn w (file, targetsIn requests file)

theorem exists_request_of_mem_groupByFile (hgroup : group ∈ groupByFile requests) :
    ∃ r ∈ requests, r.file = group.1 :=
  List.mem_map.1 (((groups_groupByFile requests).files group.1).1 (List.mem_map_of_mem hgroup))

theorem ends_review_tells (w : Workspace) (requests : List Request) :
    (review requests).Ends w
      (fun files w' => files.map FileReport.file = (requests.map Request.file).eraseDups.filter (isReadable w) ∧
        (∀ report ∈ files, ∃ source, Tells w (targetsIn requests report.file) source report) ∧
        w' = logging w (entriesFor w requests))
      fun _ w' => (∃ r ∈ requests, Stops w r.file) ∧ w.Logged w' := by
  simp only [review, ends_bind, ends_pure]
  refine (ends_mapM_annotate (groupByFile requests)).imp ?_ ?_
  · rintro results _ ⟨hresults, rfl⟩
    obtain ⟨hlisted, htells⟩ := files_of_contributes hresults
    rw [map_fst_groupByFile] at hlisted
    refine ⟨hlisted, fun report hreport => ?_, ?_⟩
    · obtain ⟨group, hgroup, hfile, source, htells⟩ := htells report hreport
      rw [hfile, ← (groups_groupByFile requests).targets group hgroup]
      exact ⟨source, htells⟩
    · rw [entriesFor, groupByFile_eq, List.flatMap_map]
  · rintro _ _ ⟨⟨group, hgroup, hstops⟩, hlogged⟩
    obtain ⟨r, hr, hfile⟩ := exists_request_of_mem_groupByFile hgroup
    exact ⟨⟨r, hr, hfile ▸ hstops⟩, hlogged⟩

/-- A file with a text that its targets change has a patch. -/
theorem exists_patch_of_review {files : List FileReport} {w' : Workspace} {r : Request} {text : Text}
    (hreview : (review requests).run w = .ok files w') (hr : r ∈ requests) (htext : textAt w r.file = .ok text)
    (hmodified : (Stamp.run text (targetsIn requests r.file)).modified = true) :
    ∃ report ∈ files, report.file = r.file ∧ ∃ patch, report.patch = some patch ∧ patch.old = text := by
  obtain ⟨hfiles, htells, -⟩ := (ends_review_tells w requests).ok hreview
  have hlisted : r.file ∈ files.map FileReport.file := by
    rw [hfiles, List.mem_filter, List.mem_eraseDups, isReadable, htext]
    exact ⟨List.mem_map_of_mem hr, rfl⟩
  obtain ⟨report, hreport, hfile⟩ := List.mem_map.1 hlisted
  obtain ⟨source, hsource⟩ := htells report hreport
  have hread := hsource.read
  rw [hfile, htext] at hread
  cases hread
  obtain ⟨shown, -, hpatch⟩ := hsource.modified (hfile ▸ hmodified)
  exact ⟨report, hreport, hfile, _, hpatch, rfl⟩

section Removal

theorem discreet_forM_say (entries : List Log.Entry) : Discreet (entries.forM fun entry => say (.log entry)) := by
  induction entries with
  | nil => exact discreet_pure ()
  | cons entry rest ih => exact (discreet_say (.log entry)).bind fun _ => ih

theorem discreet_annotate (group : String × List Stamp.Target) : Discreet (annotate group) := by
  have hread : Silent (readSource group.1) := by
    refine Silent.onDisk ((silent_checkPath _).bind fun _ => .get_bind (fun _ _ => rfl) fun w => ?_)
      fun error => silent_pure _
    split
    · exact silent_throw _
    refine (silent_readFile _).bind fun octets => ?_
    split
    all_goals exact silent_pure _
  refine hread.discreet.bind fun result => ?_
  split
  · exact (discreet_log _ _).bind fun _ => discreet_pure none
  next source =>
  refine (discreet_forM_say _).bind fun _ => ?_
  dsimp only
  split
  · exact (silent_displayPath _).discreet.bind fun shown => (discreet_pure _).bind fun patch =>
      (discreet_log _ _).bind fun _ => discreet_pure _
  · exact (discreet_pure _).bind fun patch => (discreet_log _ _).bind fun _ => discreet_pure _

/-- The reports on the files of some groups. -/
def collect (groups : List (String × List Stamp.Target)) : Action (List FileReport) := do
  return (← groups.mapM annotate).filterMap id

theorem collect_cons (group : String × List Stamp.Target) (rest : List (String × List Stamp.Target)) :
    collect (group :: rest) = do
      let result ← annotate group
      let files ← collect rest
      return result.toList ++ files := by
  simp only [collect, List.mapM_cons, bind_assoc, pure_bind]
  refine bind_congr fun result => bind_congr fun results => ?_
  cases result <;> rfl

theorem discreet_collect (groups : List (String × List Stamp.Target)) : Discreet (collect groups) := by
  induction groups with
  | nil => exact discreet_pure []
  | cons group rest ih =>
    rw [collect_cons]
    exact (discreet_annotate group).bind fun result => ih.bind fun files => discreet_pure _

/-- A group leaves everything as it was, and one whose file has no text gives nothing. -/
theorem effect_annotate (w : Workspace) (hnul : '\x00' ∉ group.1.toList) :
    ∃ result, (annotate group).effect w = (result, w.recalling []) ∧
      (isReadable w group.1 = false → result = .ok none) := by
  have hends := (ends_effect (annotate group) w).and (ends_annotate_contributes w group)
  cases hrun : (annotate group).run w with
  | ok result w' =>
    obtain ⟨heffect, hcontributes, rfl⟩ := hends.ok hrun
    refine ⟨.ok result, heffect, fun hunreadable => ?_⟩
    cases result with
    | none => rfl
    | some report =>
      obtain ⟨hfile, source, htells⟩ := hcontributes
      rw [← hfile, htells.isReadable] at hunreadable
      cases hunreadable
  | error failure w' =>
    obtain ⟨heffect, hstops, entries, rfl⟩ := hends.error hrun
    have hreadable := (hstops.resolve_left hnul).1
    exact ⟨.error failure, heffect, fun hunreadable => by simp [hreadable] at hunreadable⟩

/-- Groups whose files have no text may be left out. -/
theorem effect_collect_filter {groups : List (String × List Stamp.Target)}
    (hnul : ∀ group ∈ groups, '\x00' ∉ group.1.toList) :
    (collect (groups.filter fun group => isReadable w group.1)).effect w = (collect groups).effect w := by
  have hrest (groups : List (String × List Stamp.Target)) (result : Option FileReport) :
      Discreet (do return result.toList ++ (← collect groups)) :=
    (discreet_collect groups).bind fun files => discreet_pure _
  induction groups with
  | nil => rfl
  | cons group rest ih =>
    rw [List.forall_mem_cons] at hnul
    obtain ⟨result, heffect, hnone⟩ := effect_annotate w hnul.1
    rw [collect_cons, effect_bind (hrest rest), heffect]
    rw [List.filter_cons]
    split
    · rw [collect_cons, effect_bind (hrest _), heffect]
      cases result with
      | error failure => rfl
      | ok result =>
        dsimp only
        rw [hrest, hrest, effect_bind fun files => discreet_pure _,
          effect_bind fun files => discreet_pure _, ih hnul.2]
    · -- all that the group does is to log a warning
      next hunreadable =>
      rw [hnone (by simpa using hunreadable)]
      dsimp only
      rw [hrest, Option.toList_none]
      simp only [List.nil_append, bind_pure]
      exact ih hnul.2

/-- Requests for files without a text may be left out. -/
theorem effect_run_filter (hnul : ∀ r ∈ requests, '\x00' ∉ r.file.toList) (options : Options) :
    (run (requests.filter fun r => isReadable w r.file) options).effect w = (run requests options).effect w := by
  have hreview : (review (requests.filter fun r => isReadable w r.file)).effect w = (review requests).effect w := by
    change (collect (groupByFile _)).effect w = (collect (groupByFile requests)).effect w
    rw [groupByFile_filter (isReadable w)]
    refine effect_collect_filter fun group hgroup => ?_
    obtain ⟨r, hr, hfile⟩ := exists_request_of_mem_groupByFile hgroup
    exact hfile ▸ hnul r hr
  have hcommit (files : List FileReport) : Discreet (do
      if options.writesFiles && !(pendingWrites files).isEmpty then
        return Report.of files (some (← commit (pendingWrites files) options.backupDirectory))
      else return Report.of files none) := by
    split
    · exact (notes_commit _ _).discreet.bind fun backup => discreet_pure _
    · exact discreet_pure _
  rw [run_eq, run_eq, effect_bind hcommit, effect_bind hcommit, hreview]

end Removal

theorem total_eq_sum (count : FileReport → Nat) (files : List FileReport) :
    total count files = (files.map count).sum := by
  induction files with
  | nil => rfl
  | cons first rest ih => rw [List.map_cons, List.sum_cons, ← ih]; rfl

/-- What a batch comes to: a report on each file with a text, in the order of first appearance, and what its own
targets make of it; the sums; a log about each file, before that of writing; and no change unless there is a patch
and it may be written. -/
structure Accounts (w : Workspace) (requests : List Request) (options : Options) (report : Report) (w' : Workspace) :
    Prop where
  files : report.files.map FileReport.file = (requests.map Request.file).eraseDups.filter (isReadable w)
  tells : ∀ f ∈ report.files, ∃ source, Tells w (targetsIn requests f.file) source f
  totalApplied : report.totalApplied = (report.files.map FileReport.applied).sum
  totalSkipped : report.totalSkipped = (report.files.map FileReport.skipped).sum
  log : (logging w (entriesFor w requests)).Noted .info w'
  untouched : ¬ (options.writesFiles = true ∧ ∃ f ∈ report.files, f.patch.isSome = true) →
    w' = logging w (entriesFor w requests)

theorem ends_run_accounts (w : Workspace) (requests : List Request) (options : Options) :
    (run requests options).Ends w (Accounts w requests options)
      fun _ w' => options.writesFiles = false → w.Logged w' ∧ ∃ r ∈ requests, Stops w r.file := by
  rw [run_eq, ends_bind]
  refine (ends_review_tells w requests).imp ?_ fun _ _ h _ => h.symm
  rintro files w₁ ⟨hfiles, htells, hw₁⟩
  have happlied := total_eq_sum FileReport.applied files
  have hskipped := total_eq_sum FileReport.skipped files
  split
  · next hwrites =>
    rw [Bool.and_eq_true, Bool.not_eq_true', List.isEmpty_eq_false_iff] at hwrites
    rw [ends_bind]
    refine ((notes_commit _ _).noted w₁).imp (fun backup w' hnoted => ?_) fun _ _ _ hno => ?_
    · refine ends_pure.2 ⟨hfiles, htells, happlied, hskipped, hw₁ ▸ hnoted, fun hidle => absurd ⟨hwrites.1, ?_⟩ hidle⟩
      obtain ⟨change, hchange⟩ := List.exists_mem_of_ne_nil _ hwrites.2
      obtain ⟨f, hf, patch, hpatch, -⟩ := mem_pendingWrites.1 hchange
      exact ⟨f, hf, by rw [hpatch]; rfl⟩
    · rw [hwrites.1] at hno
      cases hno
  · exact ends_pure.2 ⟨hfiles, htells, happlied, hskipped, .of_eq (by rw [hw₁]), fun _ => hw₁⟩

/-- A batch does to each file what it would do to the file alone. It reports on the files that can be read, as their
own targets have it, and logs one warning for each of the others; it changes nothing unless it writes a patch. So
requests for unreadable files make no difference, nor does the order of requests for different files, as long as
the files come first in the same order. -/
theorem batch_is_isolated (w : Workspace) (requests : List Request) (options : Options) :
    (run requests options).Ends w (Accounts w requests options)
        (fun _ w' => options.writesFiles = false → w.Logged w' ∧ ∃ r ∈ requests, Stops w r.file) ∧
      ((∀ r ∈ requests, '\x00' ∉ r.file.toList) →
        (run (requests.filter fun r => isReadable w r.file) options).effect w = (run requests options).effect w) ∧
      ∀ reordered : List Request, (reordered.map Request.file).eraseDups = (requests.map Request.file).eraseDups →
        (∀ file, targetsIn reordered file = targetsIn requests file) →
          run reordered options = run requests options := by
  refine ⟨ends_run_accounts w requests options, fun hnul => effect_run_filter hnul options,
    fun reordered hfirst hwithin => ?_⟩
  have hgroups : groupByFile reordered = groupByFile requests := by
    rw [groupByFile_eq, groupByFile_eq, hfirst]
    exact List.map_congr_left fun file _ => by rw [hwithin]
  rw [run, run, hgroups]

/-- A page, a link to it, and a file that holds no text. -/
def cupboard : Workspace where
  tree := ⟨[(["a"], .file (Utf8.encode "<a>\n<b>".toList)), (["l"], .link "a"), (["x"], .file [0xff])]⟩
  directory := ⟨[], 0⟩

/-- A request for a tag at the start of a line. -/
def ask (file : String) (line : Int) (type id : String) : Request where
  file := file
  target := { agentId := id.toList, line := line, column := 1, type := type.toList }

/-- Requests for the page under its two paths, and for what has no text. -/
def scattered : List Request :=
  [ask "l" 2 "b" "v", ask "gone" 1 "a" "w", ask "a" 1 "a" "y", ask "x" 1 "a" "z"]

/-- The page gets a report under each of its paths, what has no text gets none. -/
theorem batch_is_isolated_in_cupboard :
    (∀ r ∈ scattered, '\x00' ∉ r.file.toList) ∧
      (∃ report w', (run scattered {}).run cupboard = .ok report w' ∧
        report.files.map FileReport.file = ["l", "a"] ∧ report.totalApplied = 2 ∧
        report.totalApplied = (report.files.map FileReport.applied).sum ∧ w'.tree = cupboard.tree) ∧
      (run [ask "l" 2 "b" "v", ask "a" 1 "a" "y"] {}).effect cupboard = (run scattered {}).effect cupboard ∧
      run (ask "l" 2 "b" "v" :: ask "l" 1 "a" "u" :: scattered.tail) {} =
        run (scattered ++ [ask "l" 1 "a" "u"]) {} := by
  have hnul : ∀ r ∈ scattered, '\x00' ∉ r.file.toList := by decide +kernel
  have hruns : (run scattered {}).Ends cupboard (fun report _ => report.totalApplied = 2) fun _ _ => False := by
    decide +kernel
  have hkept : (scattered.filter fun r => isReadable cupboard r.file) = [ask "l" 2 "b" "v", ask "a" 1 "a" "y"] := by
    decide +kernel
  obtain ⟨haccounts, hfilter, -⟩ := batch_is_isolated cupboard scattered {}
  obtain ⟨report, w', hrun, htotal⟩ := hruns.exists_ok
  have h := haccounts.ok hrun
  refine ⟨hnul, ⟨report, w', hrun, ?_, htotal, h.totalApplied, ?_⟩, hkept ▸ hfilter hnul, ?_⟩
  · rw [h.files]
    decide +kernel
  · rw [h.untouched (by simp [Options.writesFiles])]
    rfl
  · refine (batch_is_isolated cupboard (scattered ++ [ask "l" 1 "a" "u"]) {}).2.2 _ (by decide +kernel) fun file => ?_
    by_cases hfile : "l" = file
    · subst hfile
      decide +kernel
    · simp [targetsIn, scattered, ask, List.filter_cons, hfile]

end TagStamp.Batch
