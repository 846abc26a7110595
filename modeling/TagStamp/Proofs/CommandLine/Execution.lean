import TagStamp.CommandLine.Execution
import TagStamp.Proofs.CommandLine.Outcome

namespace TagStamp

/-- A tree of directories and files, with a working directory that is one of them. -/
@[mk_iff]
structure Workspace.Plain (w : Workspace) : Prop where
  tree : w.tree.Plain
  placed : w.tree.get? w.directory.place = some .directory
  kept : w.directory.lost = 0

instance (w : Workspace) : Decidable w.Plain :=
  decidable_of_iff _ (Workspace.plain_iff w).symm

theorem Workspace.Plain.sound {w : Workspace} (h : w.Plain) : w.Sound where
  linkless := h.tree.linkless
  kept := by simp [Standpoint.isLost, h.kept]
  named := h.tree.isName_of_get? h.placed

/-- What was said before does not matter. -/
theorem Workspace.Plain.restart {w : Workspace} (h : w.Plain) : ({ w with transcript := [] } : Workspace).Plain :=
  ⟨h.tree, h.placed, h.kept⟩

namespace CommandLine

open TagStamp.Action

-- unfolding it would run the action
seal Action.Ends

/-- The command line of a write run with a backup directory. -/
def writeRun (directory : String) : List String :=
  ["annotate", "--write", "--backup-dir", directory]

/-- What it asks for. -/
def writeArguments (directory : String) : Arguments where
  write := true
  backupDirectory := some directory

namespace Grammar

variable (g : Grammar)

private theorem token_cases (arg : String) :
    (∃ token, g.token arg = .ok token) ∨
      ∃ program usage message, g.token arg = .error (.misused program usage message) := by
  cases h : g.token arg with
  | ok token => exact .inl ⟨token, rfl⟩
  | error stop =>
    simp only [token, misuse] at h
    repeat' split at h
    all_goals cases h
    exact .inr ⟨_, _, _, rfl⟩

/-- Arguments are kept as they are given, or one of them makes no sense. -/
theorem tokens_cases (args : List String) :
    (∃ tokens, g.tokens args = .ok tokens ∧ tokens.map Prod.fst = args) ∨
      ∃ program usage message, g.tokens args = .error (.misused program usage message) := by
  induction args with
  | nil => exact .inl ⟨[], rfl, rfl⟩
  | cons arg rest ih =>
    rw [tokens]
    split
    · refine .inl ⟨_, rfl, ?_⟩
      simp [Function.comp_def]
    obtain ⟨token, htoken⟩ | ⟨program, usage, message, htoken⟩ := g.token_cases arg
    · rw [htoken]
      obtain ⟨others, hothers, hmap⟩ | ⟨program, usage, message, hothers⟩ := ih
      · exact .inl ⟨(arg, token) :: others, by rw [hothers]; rfl, by rw [List.map_cons, hmap]⟩
      · exact .inr ⟨program, usage, message, by rw [hothers]; rfl⟩
    · exact .inr ⟨program, usage, message, by rw [htoken]; rfl⟩

end Grammar

/-- After the name of the command the program leaves all arguments to the command. -/
theorem parse_programGrammar (args : List String) :
    programGrammar.parse ("annotate" :: args) = .ok { command := some ("annotate" :: args) } ∨
      ∃ program usage message,
        programGrammar.parse ("annotate" :: args) = .error (.misused program usage message) := by
  have hconsume (tokens : List (String × Token)) :
      programGrammar.consume {} (("annotate", .plain) :: tokens) =
        .ok { command := some ("annotate" :: tokens.map Prod.fst) } := rfl
  have htokens : programGrammar.tokens ("annotate" :: args) = (do
      return ("annotate", .plain) :: (← programGrammar.tokens args)) := rfl
  rw [Grammar.parse, htokens]
  obtain ⟨tokens, hargs, hmap⟩ | ⟨program, usage, message, hargs⟩ := programGrammar.tokens_cases args
  · rw [hargs, ← hmap]
    exact .inl (hconsume tokens)
  · rw [hargs]
    exact .inr ⟨program, usage, message, rfl⟩

/-- The command takes a write run with a backup directory, unless the directory looks like an option. -/
theorem parse_annotateGrammar (directory : String) :
    annotateGrammar.parse ["--write", "--backup-dir", directory] =
        .ok { given := [(.write, none), (.backupDirectory, some directory)] } ∨
      ∃ program usage message,
        annotateGrammar.parse ["--write", "--backup-dir", directory] = .error (.misused program usage message) := by
  have hwrite (args : List String) : annotateGrammar.tokens ("--write" :: args) = (do
      return ("--write", .option ⟨.write, ["--write"], false⟩ "--write" none) ::
        (← annotateGrammar.tokens args)) := rfl
  have hbackup (args : List String) : annotateGrammar.tokens ("--backup-dir" :: args) = (do
      return ("--backup-dir", .option ⟨.backupDirectory, ["--backup-dir"], true⟩ "--backup-dir" none) ::
        (← annotateGrammar.tokens args)) := rfl
  rw [Grammar.parse, hwrite, hbackup]
  obtain ⟨tokens, hdirectory, hmap⟩ | ⟨program, usage, message, hdirectory⟩ :=
    annotateGrammar.tokens_cases [directory]
  · obtain ⟨⟨_, token⟩, rfl, rfl⟩ := List.map_eq_singleton_iff.1 hmap
    rw [hdirectory]
    cases token with
    | plain => exact .inl rfl
    | _ => exact .inr ⟨_, _, _, rfl⟩
  · rw [hdirectory]
    exact .inr ⟨program, usage, message, rfl⟩

private theorem parseArguments_writeRun (directory : String) :
    parseArguments (writeRun directory) = .ok (writeArguments directory) ∨
      ∃ program usage message, parseArguments (writeRun directory) = .error (.misused program usage message) := by
  obtain hprogram | ⟨program, usage, message, hprogram⟩ :=
    parse_programGrammar ["--write", "--backup-dir", directory]
  · obtain ⟨next, hcommand, hnext⟩ : ∃ next, parseArguments (writeRun directory) =
        annotateGrammar.parse ["--write", "--backup-dir", directory] >>= next ∧
        next { given := [(.write, none), (.backupDirectory, some directory)] } = .ok (writeArguments directory) := by
      rw [parseArguments, writeRun, hprogram]
      exact ⟨_, rfl, rfl⟩
    rw [hcommand]
    obtain hparse | ⟨program, usage, message, hparse⟩ := parse_annotateGrammar directory
    · rw [hparse]
      exact .inl hnext
    · rw [hparse]
      exact .inr ⟨program, usage, message, rfl⟩
  · rw [parseArguments, writeRun, hprogram]
    exact .inr ⟨program, usage, message, rfl⟩

variable {w : Workspace} {argv : List String} {args : Arguments} {code : Nat}

/-- A run ends as the command does that it asks for. -/
theorem outcome_of_execute (hw : w.Plain) (hparse : parseArguments argv = .ok args)
    (hexit : (execute argv w).outcome = .ok code) :
    Outcome args { w with transcript := [] } code (execute argv w).workspace := by
  have hends := ends_annotate hw.restart.sound rfl args
  simp only [execute, hparse] at hexit ⊢
  cases hrun : (annotate args).run { w with transcript := [] } with
  | ok returned w' =>
    rw [hrun] at hexit
    cases hexit
    exact hends.ok hrun
  | error failure w' =>
    rw [hrun] at hexit
    cases hexit

/-- Without permission to write nothing changes, however the run ends. -/
theorem tree_execute_of_not_write (hw : w.Plain)
    (hdry : ∀ args, parseArguments argv = .ok args → args.write = false) :
    (execute argv w).workspace.tree = w.tree := by
  cases hparse : parseArguments argv with
  | error stop =>
    rw [execute, hparse]
    cases stop <;> rfl
  | ok args =>
    have hends := ends_annotate hw.restart.sound rfl args
    have hwrite := hdry args hparse
    simp only [execute, hparse]
    cases hrun : (annotate args).run { w with transcript := [] } with
    | ok returned w' =>
      cases hends.ok hrun with
      | unloaded htree => exact htree
      | unwritten _ _ htree _ => exact htree
      | written _ hasked => simp [hwrite] at hasked
      | failed _ hasked => simp [hwrite] at hasked
    | error failure w' => exact hends.error hrun hwrite

/-- A write run that is not misused is one with the given backup directory. -/
theorem parseArguments_of_execute {directory : String}
    (hexit : (execute (writeRun directory) w).outcome = .ok code) (hcode : code ≠ 2) :
    parseArguments (writeRun directory) = .ok (writeArguments directory) := by
  refine (parseArguments_writeRun directory).resolve_right ?_
  rintro ⟨program, usage, message, hparse⟩
  rw [execute, hparse] at hexit
  cases hexit
  exact hcode rfl

/-- A manifest with one element. -/
def manifestText : Text :=
  "\x7b\"schemaVersion\":\"1.0\",\"elements\":[\x7b\"agentId\":\"x\",\"type\":\"a\",".toList ++
    "\"filePath\":\"src/./app/../app/a.html\",\"line\":1,\"column\":1\x7d]\x7d".toList

/-- A project directory with this manifest, the file of the element, and notes above it. -/
def project : Workspace where
  tree := ⟨[(["p"], .directory), (["p", "manifest.json"], .file (Utf8.encode manifestText)),
    (["p", "src"], .directory), (["p", "src", "notes"], .file [110, 111]), (["p", "src", "app"], .directory),
    (["p", "src", "app", "a.html"], .file (Utf8.encode "<a>".toList))]⟩
  directory := ⟨["p"], 0⟩

end CommandLine

end TagStamp
