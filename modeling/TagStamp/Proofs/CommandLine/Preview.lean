import TagStamp.Proofs.CommandLine.Recovery

namespace TagStamp.CommandLine

open TagStamp.Action Batch

-- unfolding it would run the action
seal Action.Ends

/-- The elements to annotate, if the manifest loads. -/
def loading (args : Arguments) : Action (Option (List Manifest.Element)) := do
  elements? (← Action.resolve (← Action.ofExcept (manifestPath args)))

/-- A dry run, up to its report. -/
def preview (args : Arguments) : Action (Option Report) := do
  match ← loading args with
  | none => return none
  | some elements => runBatch elements {}

/-- What a dry run reports. -/
def dryReport (args : Arguments) (w : Workspace) : Option Report :=
  match (preview args).run { w with transcript := [] } with
  | .ok report _ => report
  | .error _ _ => none

namespace Arguments

/-- Where the manifest is read from. -/
def manifestPlace (args : Arguments) (directory : Location) : Location :=
  (Path.parse (args.manifest.getD "")).destination directory

/-- The backup directory as it is written: the default if none or an empty one is given. -/
def backupName (args : Arguments) : String :=
  (args.backupDirectory.filter (· ≠ "")).getD Backup.defaultDirectory

/-- The backup directory. -/
def backupPlace (args : Arguments) (directory : Location) : Location :=
  (Path.parse args.backupName).destination directory

/-- What a batch may do. -/
def options (args : Arguments) : Options where
  dryRun := !args.write
  write := args.write
  backupDirectory := pathSetting args.backupDirectory

end Arguments

variable {w : Workspace} {args : Arguments} {manifest : Manifest} {files : List FileReport} {place : Location}

/-- Of the arguments, only the manifest counts for what is loaded. -/
theorem loading_congr {args' : Arguments} (h : args'.manifest = args.manifest) : loading args' = loading args := by
  rw [loading, loading, manifestPath, manifestPath, h]

theorem dryReport_congr {args' : Arguments} (h : args'.manifest = args.manifest) (w : Workspace) :
    dryReport args' w = dryReport args w := by
  rw [dryReport, dryReport, preview, preview, loading_congr h]

theorem chosenDirectory_pathSetting (args : Arguments) :
    Backup.chosenDirectory args.options.backupDirectory = .ok (.parse args.backupName) := by
  obtain ⟨_, _, _, _, directory, _⟩ := args
  cases directory with
  | none => rfl
  | some directory =>
    by_cases hempty : directory = ""
    · subst hempty
      rfl
    · simp [Arguments.options, Arguments.backupName, pathSetting, Backup.chosenDirectory, Json.text, Json.isTruthy,
        CodeString.isEmpty, Option.filter_some, hempty]

@[simp]
theorem writesFiles_options (args : Arguments) : args.options.writesFiles = args.write := by
  simp [Arguments.options, Options.writesFiles]

theorem isName_of_mem_backupPlace {directory : Location} (hdirectory : ∀ name ∈ directory, IsName name)
    (args : Arguments) : ∀ name ∈ args.backupPlace directory, IsName name :=
  Path.isName_of_mem_destination (fun _ => Path.isStep_of_mem_parse) hdirectory

theorem ends_loading (hw : w.Sound) (args : Arguments) :
    (loading args).Ends w
      (fun result w' => match result with
        | none => w'.tree = w.tree
        | some elements => (∃ manifest,
            Manifest.StandsAt w (args.manifestPlace w.directory.place) manifest ∧
            elements = manifest.elements.map (Manifest.Element.resolved w.directory.place)) ∧ w.Logged w')
      fun _ w' => w'.tree = w.tree := by
  cases hpath : args.manifest with
  | none =>
    simp only [loading, manifestPath, hpath, ends_bind, ends_ofExcept]
  | some path =>
    have hsteps : ∀ name ∈ (Path.parse path).names, IsStep name := fun name => Path.isStep_of_mem_parse
    have hplace : args.manifestPlace w.directory.place = (Path.parse path).destination w.directory.place := by
      rw [Arguments.manifestPlace, hpath, Option.getD_some]
    simp only [loading, manifestPath, hpath, ends_bind, ends_ofExcept]
    refine (ends_resolve hw.linkless hsteps).imp ?_ ?_
    · rintro q w₁ ⟨hq, -, hw₁⟩
      rw [hq, hw₁, hplace]
      exact ends_elements? hw (Path.isName_of_mem_destination hsteps hw.named)
    · rintro _ _ ⟨-, rfl⟩
      rfl

private theorem run_preview {elements : List Manifest.Element} {files : List FileReport} {w₁ w₂ : Workspace}
    (hload : (loading args).run w = .ok (some elements) w₁)
    (hreview : (review (requestsOf elements)).run w₁ = .ok files w₂) :
    (preview args).run w = .ok (some (.of files none)) w₂ := by
  rw [run_eq_ok_iff] at hload hreview ⊢
  rw [preview, ends_bind]
  refine hload.imp ?_ fun _ _ h => h
  rintro _ _ ⟨rfl, rfl⟩
  simp only [runBatch, run_eq, ends_tryCatch, ends_bind, ends_pure]
  refine hreview.imp ?_ fun _ _ h => h.elim
  rintro _ _ ⟨rfl, rfl⟩
  exact ends_pure.2 ⟨rfl, rfl⟩

theorem dryReport_of_run {elements : List Manifest.Element} {files : List FileReport} {w₁ w₂ : Workspace}
    (hw : w.transcript = []) (hload : (loading args).run w = .ok (some elements) w₁)
    (hreview : (review (requestsOf elements)).run w₁ = .ok files w₂) :
    dryReport args w = some (.of files none) := by
  have hrestart : { w with transcript := [] } = w := by rw [← hw]
  rw [dryReport, hrestart, run_preview hload hreview]

theorem isName_of_mem_place {directory : Location} (hdirectory : ∀ name ∈ directory, IsName name)
    (e : Manifest.Element) : ∀ name ∈ e.place directory, IsName name :=
  Path.isName_of_mem_destination (fun _ => Path.isStep_of_mem_parse) hdirectory

theorem written_of_mem_requestsOf (elements : List Manifest.Element) {directory : Location}
    (hdirectory : ∀ name ∈ directory, IsName name) :
    ∀ r ∈ requestsOf (elements.map (Manifest.Element.resolved directory)), Written r.file := by
  intro r hr
  simp only [requestsOf, List.map_map, List.mem_map] at hr
  obtain ⟨e, -, rfl⟩ := hr
  exact ⟨e.place directory, isName_of_mem_place hdirectory e, rfl⟩

/-- Reports on no files at all. -/
theorem reviews_nil (t : FileTree) : Reviews t (requestsOf []) [] :=
  ⟨.slnil, by simp⟩

/-- What a run has found out before it writes: the manifest, and the reports that a dry run would give. A file
with a text that its targets change has a patch. -/
structure Loads (args : Arguments) (w : Workspace) (manifest : Manifest) (files : List FileReport) : Prop where
  stands : Manifest.StandsAt w (args.manifestPlace w.directory.place) manifest
  report : dryReport args w = some (.of files none)
  reviews : Reviews w.tree (requestsOf (manifest.elements.map (Manifest.Element.resolved w.directory.place))) files
  complete : ∀ r ∈ requestsOf (manifest.elements.map (Manifest.Element.resolved w.directory.place)), ∀ text,
    textAt w r.file = .ok text →
    (Stamp.run text (targetsIn (requestsOf (manifest.elements.map (Manifest.Element.resolved w.directory.place)))
      r.file)).modified = true →
    ∃ report ∈ files, report.file = r.file ∧ ∃ patch, report.patch = some patch ∧ patch.old = text

/-- The targets that a manifest has for the file at a place, in the order of its elements. -/
def targetsAt (manifest : Manifest) (directory place : Location) : List Stamp.Target :=
  (manifest.elements.filter (·.place directory = place)).map Manifest.Element.target

/-- Elements are in one file if their places are one, however they spell it. -/
theorem targetsIn_requestsOf {directory : Location} (hdirectory : ∀ name ∈ directory, IsName name)
    (hplace : ∀ name ∈ place, IsName name) (manifest : Manifest) :
    targetsIn (requestsOf (manifest.elements.map (Manifest.Element.resolved directory)))
      (Path.absolute place).text = targetsAt manifest directory place := by
  have hsame (e : Manifest.Element) :
      (Path.absolute (e.place directory)).text = (Path.absolute place).text ↔ e.place directory = place := by
    refine ⟨fun h => ?_, fun h => by rw [h]⟩
    exact Path.text_absolute_inj (fun name hname => (isName_of_mem_place hdirectory e name hname).isStep)
      (fun name hname => (hplace name hname).isStep) h
  simp only [targetsIn, targetsAt, requestsOf, List.map_map, List.filter_map, Function.comp_def,
    Manifest.Element.resolved, hsame]
  rfl

namespace Loads

theorem written (h : Loads args w manifest files) (hw : w.Sound) : ∀ report ∈ files, Written report.file :=
  h.reviews.written (written_of_mem_requestsOf manifest.elements hw.named)

/-- A reported file is the file of an element. -/
theorem named (h : Loads args w manifest files) (hw : w.Sound) {report : FileReport} (hreport : report ∈ files) :
    ∃ e ∈ manifest.elements, e.place w.directory.place = placeOf report.file := by
  obtain ⟨r, hr, hfile⟩ := h.reviews.mem_files hreport
  simp only [requestsOf, List.map_map, List.mem_map] at hr
  obtain ⟨e, he, rfl⟩ := hr
  refine ⟨e, he, ?_⟩
  rw [← hfile]
  exact (placeOf_text (isName_of_mem_place hw.named e)).symm

/-- A patch leads from the text of its file to what the targets of all elements in the file make of it. -/
theorem patch (h : Loads args w manifest files) (hw : w.Sound) {report : FileReport} (hreport : report ∈ files)
    {patch : Diff.FilePatch} (hpatch : report.patch = some patch) :
    ∃ octets, w.tree.content? (placeOf report.file) = some octets ∧ Utf8.decode octets = .ok patch.old ∧
      patch.new = (Stamp.run patch.old (targetsAt manifest w.directory.place (placeOf report.file))).text := by
  have hwritten := h.written hw report hreport
  rw [← targetsIn_requestsOf hw.named hwritten.named, ← hwritten.eq_text]
  exact (h.reviews.annotates report hreport).patch patch hpatch

/-- The file at a place has a patch if it has a text that the targets of all elements in it change. -/
theorem exists_patch (h : Loads args w manifest files) (hw : w.Sound) {text : Text}
    (htext : textAt w (Path.absolute place).text = .ok text)
    (hmodified : (Stamp.run text (targetsAt manifest w.directory.place place)).modified = true) :
    ∃ report ∈ files, placeOf report.file = place ∧ ∃ patch, report.patch = some patch ∧ patch.old = text := by
  obtain ⟨e, he, rfl⟩ : ∃ e ∈ manifest.elements, e.place w.directory.place = place := by
    by_contra hnone
    have hempty : targetsAt manifest w.directory.place place = [] := by
      rw [targetsAt, List.map_eq_nil_iff, List.filter_eq_nil_iff]
      exact fun e he heq => hnone ⟨e, he, of_decide_eq_true heq⟩
    rw [hempty] at hmodified
    exact absurd hmodified (by simp [Stamp.run, Stamp.Target.inOrder, Stamp.Result.modified])
  have hnamed := isName_of_mem_place hw.named e
  have hrequest : ⟨(e.resolved w.directory.place).filePath, (e.resolved w.directory.place).target⟩ ∈
      requestsOf (manifest.elements.map (Manifest.Element.resolved w.directory.place)) :=
    List.mem_map_of_mem (List.mem_map_of_mem he)
  rw [← targetsIn_requestsOf hw.named hnamed] at hmodified
  obtain ⟨report, hreport, hfile, hpatch⟩ := h.complete _ hrequest text htext hmodified
  refine ⟨report, hreport, ?_, hpatch⟩
  rw [hfile]
  exact placeOf_text hnamed

/-- Files that are to be written are there, so none of them is in a directory that does not exist. -/
theorem not_below (h : Loads args w manifest files) (hw : w.Sound) (ht : w.tree.Plain) {root file : Location}
    (hfree : w.tree.get? root = none) (hfile : file ∈ places (pendingWrites files)) : ¬ root <+: file := by
  obtain ⟨report, hreport, patch, hpatch, rfl⟩ := mem_places_pendingWrites.1 hfile
  obtain ⟨octets, hoctets, -⟩ := h.patch hw hreport hpatch
  exact ht.not_prefix_of_content hfree hoctets

end Loads

end TagStamp.CommandLine
