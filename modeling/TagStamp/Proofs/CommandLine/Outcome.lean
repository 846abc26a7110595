import TagStamp.CommandLine.Execution
import TagStamp.Proofs.CommandLine.Preview

namespace TagStamp.CommandLine

open TagStamp.Action Batch

-- unfolding it would run the action
seal Action.Ends

variable {w w' : Workspace} {args : Arguments}

/-- What a run does after its batch. -/
def conclude (args : Arguments) : Option Report → Action Nat
  | none => return 1
  | some report => do
    finish args args.options report
    return 0

theorem annotate_eq (args : Arguments) : annotate args = (do
    match ← loading args with
    | none => return 1
    | some [] =>
      if args.json then printJson {} else print "No elements to annotate."
      return 0
    | some elements => conclude args (← runBatch elements args.options)) := by
  simp only [annotate, loading, bind_assoc]
  rfl

/-- What a run has put on standard output. -/
def printed (w : Workspace) : String :=
  String.join (w.transcript.map Output.onStdout)

/-- Only the transcript grew, with the given text for standard output. -/
def Spoke (shown : String) (w w' : Workspace) : Prop :=
  ∃ said, w' = { w with transcript := w.transcript ++ said } ∧ String.join (said.map Output.onStdout) = shown

namespace Spoke

variable {shown : String}

theorem refl (w : Workspace) : Spoke "" w w := ⟨[], by simp, rfl⟩

theorem out (h : Spoke shown w w') (text : String) :
    Spoke (shown ++ text) w { w' with transcript := w'.transcript ++ [.out text] } := by
  obtain ⟨said, rfl, rfl⟩ := h
  exact ⟨said ++ [.out text], by simp, by simp [Output.onStdout]⟩

theorem err (h : Spoke shown w w') (text : String) :
    Spoke shown w { w' with transcript := w'.transcript ++ [.err text] } := by
  obtain ⟨said, rfl, rfl⟩ := h
  exact ⟨said ++ [.err text], by simp, by simp [Output.onStdout]⟩

theorem tree (h : Spoke shown w w') : w'.tree = w.tree := by
  obtain ⟨said, rfl, -⟩ := h
  rfl

theorem printed (h : Spoke shown w w') : printed w' = CommandLine.printed w ++ shown := by
  obtain ⟨said, rfl, rfl⟩ := h
  simp [CommandLine.printed]

end Spoke

/-- The log is not on standard output. -/
theorem printed_of_logged (h : w.Logged w') : printed w' = printed w := by
  obtain ⟨entries, rfl⟩ := h
  have hlog : String.join ((entries.map Output.log).map Output.onStdout) = "" := by
    induction entries with
    | nil => rfl
    | cons entry rest ih => simpa [Output.onStdout] using ih
  rw [printed, List.map_append, String.join_append, hlog, String.append_empty, printed]

/-- A run that has only logged so far has on standard output what it says next. -/
theorem Spoke.printed_of_logged {shown : String} {w₁ : Workspace} (h : Spoke shown w₁ w') (hlogged : w.Logged w₁)
    (hstart : w.transcript = []) : CommandLine.printed w' = shown := by
  rw [h.printed, CommandLine.printed_of_logged hlogged, CommandLine.printed, hstart]
  exact String.empty_append

/-- Diffs as a dry run shows them. -/
def shownDiffs (patches : List Diff.FilePatch) : String :=
  "\n".intercalate (patches.map fun patch => String.ofList patch.diff ++ "\n")

theorem ends_printPatches {shown : String} {w₁ : Workspace} (h₁ : Spoke shown w w₁) (patches : List Diff.FilePatch) :
    (printPatches patches).Ends w₁ (fun _ w' => Spoke (shown ++ shownDiffs patches) w w') fun _ _ => False := by
  induction patches generalizing shown w₁ with
  | nil =>
    rw [printPatches, ends_pure]
    simpa [shownDiffs] using h₁
  | cons patch rest ih =>
    cases rest with
    | nil =>
      rw [printPatches, ends_print]
      simpa [shownDiffs] using h₁.out (String.ofList patch.diff ++ "\n")
    | cons next rest =>
      simp only [printPatches, ends_bind, ends_print]
      refine (ih ((h₁.out _).out _)).imp (fun _ _ h => ?_) fun _ _ h => h
      simpa [shownDiffs, String.intercalate_cons_cons, String.append_assoc] using h

theorem ends_reportDryRun (report : Report) :
    (reportDryRun report).Ends w
      (fun _ w' => ∃ shown, Spoke shown w w' ∧ (report.patches ≠ [] → shown = shownDiffs report.patches))
      fun _ _ => False := by
  unfold reportDryRun
  split
  · next hnone => exact ends_print.2 ⟨_, (Spoke.refl w).out _, fun h => absurd (List.isEmpty_iff.1 hnone) h⟩
  · simp only [ends_bind, ends_printError]
    refine (ends_printPatches (.refl w) report.patches).imp (fun _ _ h => ?_) fun _ _ h => h
    rw [String.empty_append] at h
    exact ⟨_, (h.err _).err _, fun _ => rfl⟩

theorem ends_reportWrite (report : Report) :
    (reportWrite report).Ends w (fun _ w' => ∃ shown, Spoke shown w w') fun _ _ => False := by
  unfold reportWrite
  split
  · exact ends_print.2 ⟨_, (Spoke.refl w).out _⟩
  · simp only [ends_bind, ends_printError]
    exact ⟨_, ((((Spoke.refl w).err _).err _).err _).err _⟩

/-- What a run shows that wrote nothing: its report in JSON, or the diffs of a dry run. -/
structure Shows (args : Arguments) (report : Report) (shown : String) : Prop where
  json : args.json = true → shown = Json.render .indented report.toJson ++ "\n"
  diffs : args.write = false → args.json = false → report.patches ≠ [] → shown = shownDiffs report.patches

/-- A run that wrote nothing only reports, as JSON if it is asked to. -/
theorem ends_finish_of_no_backup {report : Report} (hbackup : report.backup = none) :
    (finish args args.options report).Ends w (fun _ w' => ∃ shown, Spoke shown w w' ∧ Shows args report shown)
      fun _ _ => False := by
  obtain ⟨files, applied, skipped, _⟩ := report
  cases hbackup
  cases hjson : args.json with
  | true =>
    simp only [finish, hjson, if_true, printJson, ends_print]
    exact ⟨_, (Spoke.refl w).out _, fun _ => String.empty_append, by simp [hjson]⟩
  | false =>
    simp only [finish, hjson, Bool.false_eq_true, if_false]
    split
    · next hwrites =>
      simp only [ends_bind, ends_pure]
      refine (ends_reportWrite _).imp ?_ fun _ _ h => h
      rintro _ _ ⟨shown, hspoke⟩
      exact ⟨shown, hspoke, by simp [hjson], fun hdry => by simp [hdry] at hwrites⟩
    · simp only [ends_bind, ends_pure]
      refine (ends_reportDryRun _).imp ?_ fun _ _ h => h
      rintro _ _ ⟨shown, hspoke, hdiffs⟩
      exact ⟨shown, hspoke, by simp [hjson], fun _ _ => hdiffs⟩

/-- A run without elements reports that there is nothing to write. -/
theorem ends_report_nothing (args : Arguments) :
    Action.Ends (do
      if args.json then printJson {} else print "No elements to annotate."
      return 0) w
      (fun code w' => code = 0 ∧ ∃ shown, Spoke shown w w' ∧ Shows args (.of [] none) shown) fun _ _ => False := by
  split
  · simp only [printJson, ends_bind, ends_print, ends_pure, true_and]
    exact ⟨_, (Spoke.refl w).out _, fun _ => String.empty_append, fun _ _ h => absurd rfl h⟩
  · next hjson =>
    simp only [ends_bind, ends_print, ends_pure, true_and]
    exact ⟨_, (Spoke.refl w).out _, fun h => absurd h hjson, fun _ _ h => absurd rfl h⟩

/-- A run that wrote files discards its backup, before or after it reports. -/
theorem ends_finish_of_backup {root : Location} {names : List String} (hw : w.tree.Linkless)
    (hroot : ∀ name ∈ root, IsName name) (hleads : w.tree.Leads root)
    (hdirectory : w.tree.get? root = some .directory) (hnul : '\x00' ∉ (Path.absolute root).text.toList)
    (options : Options) {report : Report} (hbackup : report.backup = some ⟨(Path.absolute root).text, names⟩) :
    (finish args options report).Ends w
      (fun _ w' => w'.tree = w.faults.remains w.tree root) fun _ _ => False := by
  have hdiscard {shown : String} {w₁ : Workspace} (h₁ : Spoke shown w w₁) :
      (Backup.discard ⟨(Path.absolute root).text, names⟩).Ends w₁
        (fun _ w' => w'.tree = w.faults.remains w.tree root) fun _ _ => False := by
    obtain ⟨said, rfl, -⟩ := h₁
    exact (Backup.ends_discard (w := { w with transcript := w.transcript ++ said }) hw hroot hleads hdirectory hnul
      names).imp (fun _ _ h => h.tree) fun _ _ h => h
  obtain ⟨files, applied, skipped, _⟩ := report
  cases hbackup
  cases hjson : args.json with
  | true =>
    simp only [finish, hjson, if_true, printJson, ends_bind, ends_print]
    exact hdiscard (.refl w)
  | false =>
    simp only [finish, hjson, Bool.false_eq_true, if_false]
    split
    · rw [ends_bind]
      refine (ends_reportWrite _).imp ?_ fun _ _ h => h
      rintro _ w₁ ⟨_, h₁⟩
      exact hdiscard h₁
    · rw [ends_bind]
      refine (ends_reportDryRun _).imp ?_ fun _ _ h => h
      rintro _ w₁ ⟨_, h₁, -⟩
      exact hdiscard h₁

/-- A commit leaves what it takes to discard the backup. -/
theorem ends_finish_of_commits {root : Location} {pending : List (String × Text)} {names : List String}
    (hw : w.Sound) (hroot : ∀ name ∈ root, IsName name) (hcommits : Commits root pending w w')
    (options : Options) {report : Report} (hbackup : report.backup = some ⟨(Path.absolute root).text, names⟩) :
    (finish args options report).Ends w'
      (fun _ w'' => w''.tree = w.faults.remains w'.tree root) fun _ _ => False := by
  have hdirectory := hcommits.directory
  obtain ⟨saved, hsaves, hevolves⟩ := hcommits
  rw [← hsaves.evolves.faults, ← hevolves.faults]
  exact ends_finish_of_backup (hevolves.linkless (hsaves.evolves.linkless hw.linkless)) hroot
    (hevolves.leads hsaves.leads) hdirectory hsaves.readable options hbackup

section Discarded

variable {root place : Location} {pending : List (String × Text)} {w₁ : Workspace}

/-- Discarding the backup leaves what is outside of it. -/
theorem content_outside (hcommits : Commits root pending w w₁)
    (htree : w'.tree = w.faults.remains w₁.tree root) (hplace : ¬ root <+: place) :
    w'.tree.content? place = w₁.tree.content? place := by
  rw [htree, w.faults.content?_remains hcommits.directory hplace]

/-- Unless something keeps it, nothing in the backup directory is left. -/
theorem content_below (hcommits : Commits root pending w w₁)
    (htree : w'.tree = w.faults.remains w₁.tree root) (hfaults : w.faults.removeTree = none)
    (hplace : root <+: place) : w'.tree.content? place = none := by
  rw [htree, Faults.remains, hfaults, Option.isSome_none, if_neg Bool.false_ne_true,
    FileTree.content?_prune hcommits.directory, if_pos hplace]

end Discarded

/-- The manifest of a run loads, and its batch fails for want of a backup or so that it can be undone. -/
def Retracts (args : Arguments) (w : Workspace) : Prop :=
  ∃ elements w₁, (loading args).run { w with transcript := [] } = .ok (some elements) w₁ ∧
    Undone (requestsOf elements) args.options w₁

/-- How a run ends that ends with an exit code. -/
inductive Outcome (args : Arguments) (w : Workspace) : Nat → Workspace → Prop
  | unloaded {w' : Workspace} (tree : w'.tree = w.tree) : Outcome args w 1 w'
  | unwritten {w' : Workspace} {manifest : Manifest} {files : List FileReport}
      (loads : Loads args w manifest files) (idle : args.write = false ∨ pendingWrites files = [])
      (tree : w'.tree = w.tree) (shown : Shows args (.of files none) (printed w')) : Outcome args w 0 w'
  | written {w₁ w' : Workspace} {manifest : Manifest} {files : List FileReport}
      (loads : Loads args w manifest files) (asked : args.write = true) (changes : pendingWrites files ≠ [])
      (commits : Commits (args.backupPlace w.directory.place) (pendingWrites files) w w₁)
      (content : ∀ change ∈ pendingWrites files,
        w₁.tree.content? (placeOf change.1) = some (Utf8.encode change.2))
      (tree : w'.tree = w.faults.remains w₁.tree (args.backupPlace w.directory.place)) : Outcome args w 0 w'
  | failed {w' : Workspace} {manifest : Manifest} {files : List FileReport} (loads : Loads args w manifest files)
      (asked : args.write = true)
      (fallback : (∀ file ∈ places (pendingWrites files), ¬ args.backupPlace w.directory.place <+: file) →
        Fallback (Retracts args w) (args.backupPlace w.directory.place) (places (pendingWrites files)) w w') :
      Outcome args w 1 w'

/-- After the batch a run only reports and discards its backup. -/
theorem ends_conclude {undone : Prop} {manifest : Manifest} {files : List FileReport} {result : Option Report}
    (hw : w.Sound) (hstart : w.transcript = []) (hloads : Loads args w manifest files)
    (hundone : Retracts args w → undone)
    (hbatched : Batched undone args.write (args.backupPlace w.directory.place) files w result w') :
    (conclude args result).Ends w' (fun code w'' => Outcome args w code w'') fun _ _ => False := by
  unfold conclude
  cases hbatched with
  | unwritten hidle hlogged =>
    simp only [ends_bind, ends_pure]
    refine (ends_finish_of_no_backup rfl).imp ?_ fun _ _ h => h
    rintro _ w₂ ⟨shown, hspoke, hshows⟩
    rw [← hspoke.printed_of_logged hlogged hstart] at hshows
    exact .unwritten hloads hidle (hspoke.tree.trans hlogged.tree) hshows
  | written hasked hchanges hcommits hcontent =>
    simp only [ends_bind, ends_pure]
    exact (ends_finish_of_commits hw (isName_of_mem_backupPlace hw.named args) hcommits args.options rfl).imp
      (fun _ _ h₂ => .written hloads hasked hchanges hcommits hcontent h₂) fun _ _ h => h
  | failed hasked hfallback =>
    exact ends_pure.2 (.failed hloads hasked fun houtside => (hfallback houtside).imp hundone)

/-- Everything that a run of the command can end with. -/
theorem ends_annotate (hw : w.Sound) (hstart : w.transcript = []) (args : Arguments) :
    (annotate args).Ends w (fun code w' => Outcome args w code w')
      fun _ w' => args.write = false → w'.tree = w.tree := by
  have hsilent : ¬ Reassures w := by simp [Reassures, hstart]
  rw [annotate_eq, ends_bind]
  refine (ends_loading hw args).imp_run (fun result w₁ hload h₁ => ?_) fun _ _ _ h _ => h
  cases result with
  | none => exact ends_pure.2 (.unloaded h₁)
  | some elements =>
    obtain ⟨⟨manifest, hmanifest, helements⟩, hlogged⟩ := h₁
    have hloads (files : List FileReport) (w₂ : Workspace)
        (hreview : (review (requestsOf elements)).run w₁ = .ok files w₂)
        (hreviews : Reviews w.tree (requestsOf elements) files) : Loads args w manifest files := by
      refine ⟨hmanifest, dryReport_of_run hstart hload hreview, helements ▸ hreviews, ?_⟩
      rw [← helements]
      obtain ⟨entries, rfl⟩ := hlogged
      exact fun r hr text htext => exists_patch_of_review hreview hr htext
    cases elements with
    | nil =>
      refine (ends_report_nothing args).imp ?_ fun _ _ h => h.elim
      rintro _ w₂ ⟨rfl, shown, hspoke, hshows⟩
      rw [← hspoke.printed_of_logged hlogged hstart] at hshows
      exact .unwritten (hloads [] w₁ rfl (reviews_nil w.tree)) (.inr rfl) (hspoke.tree.trans hlogged.tree) hshows
    | cons first rest =>
      have hwritten := written_of_mem_requestsOf manifest.elements hw.named
      rw [← helements] at hwritten
      simp only [ends_bind]
      refine (ends_runBatch hlogged (hlogged.evolves.sound hw) hsilent (chosenDirectory_pathSetting args) rfl
        hwritten).imp ?_ (by simp)
      rintro result w₂ ⟨files, w₃, hreview, hreviews, hbatched⟩
      rw [hlogged.evolves.directory, writesFiles_options] at hbatched
      have hundone : Retracts args w → Undone (requestsOf (first :: rest)) args.options w₁ := by
        rintro ⟨others, w₄, hothers, hundone⟩
        rw [← hstart] at hothers
        cases hload.symm.trans hothers
        exact hundone
      exact (ends_conclude hw hstart (hloads files w₃ hreview hreviews) hundone hbatched).imp (fun _ _ h => h)
        fun _ _ h => h.elim

end TagStamp.CommandLine
