import TagStamp.Manifest.Check
import TagStamp.Proofs.Batch.Isolation
import TagStamp.Proofs.Diff.RoundTrip
import TagStamp.Proofs.Stamp.EditLines

namespace TagStamp.Batch

open TagStamp.Action Attribute

-- unfolding it would run the action
seal Action.Ends

/-- A file has a patch exactly if its text becomes another one, and the patch shows the difference. -/
structure MeansChange (source text : Text) (report : FileReport) : Prop where
  patched : report.patch.isSome = true ↔ text ≠ source
  shown : ∀ patch, report.patch = some patch → patch.diff ≠ []

variable {w w' : Workspace} {requests : List Request} {options : Options} {report : Report} {f : FileReport}
  {targets : List Stamp.Target} {source : Text}

theorem diff_eq_nil_iff {path : String} {old new : Text} :
    (Diff.FilePatch.of path old new).diff = [] ↔ new = old := by
  rw [Diff.FilePatch.of, Diff.unified_eq_nil_iff]
  exact ⟨fun h => (Text.eq_of_lines_eq h).symm, fun h => by rw [h]⟩

/-- A file has a patch exactly if a target was applied to it. -/
theorem Tells.isSome_patch (h : Tells w targets source f) : f.patch.isSome = true ↔ 0 < f.applied := by
  rw [h.applied]
  cases hmodified : (Stamp.run source targets).modified with
  | false =>
    rw [h.unmodified hmodified]
    simpa [Stamp.Result.modified] using hmodified
  | true =>
    obtain ⟨shown, -, hpatch⟩ := h.modified hmodified
    rw [hpatch]
    simpa [Stamp.Result.modified] using hmodified

/-- A file that no target was applied to keeps its text. -/
theorem Tells.text_of_not_applied (h : Tells w targets source f) (hnone : f.applied = 0) :
    (Stamp.run source targets).text = source := by
  rw [h.applied] at hnone
  rw [Stamp.text_run, Stamp.Pass.lines_foldl_of_applied hnone, Text.unlines_lines]

theorem Tells.meansChange_iff (h : Tells w targets source f) :
    MeansChange source (Stamp.run source targets).text f ↔
      f.applied = 0 ∨ (Stamp.run source targets).text ≠ source := by
  constructor
  · intro hmeans
    rw [← hmeans.patched, h.isSome_patch]
    exact Nat.eq_zero_or_pos f.applied
  · intro hchange
    have hiff : f.patch.isSome = true ↔ (Stamp.run source targets).text ≠ source := by
      rw [h.isSome_patch]
      refine ⟨fun hpos => hchange.resolve_left hpos.ne', fun hne => ?_⟩
      exact Nat.pos_of_ne_zero fun hnone => hne (h.text_of_not_applied hnone)
    refine ⟨hiff, fun patch hpatch => ?_⟩
    have hsome : f.patch.isSome = true := by rw [hpatch, Option.isSome_some]
    have hmodified : (Stamp.run source targets).modified = true := by
      rw [Stamp.Result.modified, decide_eq_true_iff, ← h.applied]
      exact h.isSome_patch.1 hsome
    obtain ⟨shown, -, heq⟩ := h.modified hmodified
    rw [heq, Option.some.injEq] at hpatch
    rw [← hpatch, Ne, diff_eq_nil_iff]
    exact hiff.1 hsome

private theorem mem_targetsIn {file : String} {t : Stamp.Target} (ht : t ∈ targetsIn requests file) :
    ∃ r ∈ requests, r.target = t := by
  obtain ⟨r, hr, heq⟩ := List.mem_map.1 ht
  exact ⟨r, List.mem_of_mem_filter hr, heq⟩

/-- A patch means a change, unless all edits were undone. A file without a patch keeps its text. With a patch, it is
enough for a change that a line gets a single edit, or an edit while none of the identifiers is written in it. -/
theorem patch_means_change_unless_undone (hids : ∀ r ∈ requests, '\n' ∉ r.target.agentId)
    (hrun : (run requests options).run w = .ok report w') :
    ∀ f ∈ report.files, ∃ source, textAt w f.file = .ok source ∧
      let targets := targetsIn requests f.file
      let text := (Stamp.run source targets).text
      (f.patch = none → text = source) ∧
        (MeansChange source text f ↔ f.applied = 0 ∨ text ≠ source) ∧
        ∀ i ∈ Stamp.editLines source targets,
          ((Stamp.editLines source targets).count i = 1 ∨
            ∀ t ∈ targets, ¬ render Stamp.idAttribute t.agentId <:+: (Text.lines source).getD i []) →
          MeansChange source text f := by
  intro f hf
  obtain ⟨source, htells⟩ := ((ends_run_accounts w requests options).ok hrun).tells f hf
  have hfree : ∀ t ∈ targetsIn requests f.file, '\n' ∉ t.agentId := by
    intro t ht
    obtain ⟨r, hr, rfl⟩ := mem_targetsIn ht
    exact hids r hr
  refine ⟨source, htells.read, fun hnone => ?_, htells.meansChange_iff, fun i hi hedited => ?_⟩
  · have hzero : ¬ 0 < f.applied := by simp [← htells.isSome_patch, hnone]
    exact htells.text_of_not_applied (Nat.eq_zero_of_not_pos hzero)
  · exact htells.meansChange_iff.2 (.inr (Stamp.text_run_ne hfree hi hedited))

/-- The page and the link to it each get an edit of their own. -/
theorem patch_means_change_in_cupboard :
    ∃ report w', (run scattered {}).run cupboard = .ok report w' ∧ report.files.map FileReport.file = ["l", "a"] ∧
      ∀ f ∈ report.files, ∃ source, textAt cupboard f.file = .ok source ∧
        MeansChange source (Stamp.run source (targetsIn scattered f.file)).text f := by
  have hruns : (run scattered {}).Ends cupboard (fun report _ => report.files.map FileReport.file = ["l", "a"])
      fun _ _ => False := by
    decide +kernel
  obtain ⟨report, w', hrun, hfiles⟩ := hruns.exists_ok
  refine ⟨report, w', hrun, hfiles, fun f hf => ?_⟩
  obtain ⟨source, hread, -, -, hmeans⟩ := patch_means_change_unless_undone (by decide +kernel) hrun f hf
  refine ⟨source, hread, ?_⟩
  have hfile : f.file ∈ ["l", "a"] := hfiles ▸ List.mem_map_of_mem hf
  have htext : ∀ file ∈ ["l", "a"], textAt cupboard file = .ok "<a>\n<b>".toList := by decide +kernel
  rw [htext f.file hfile, Except.ok.injEq] at hread
  subst hread
  have honce : ∀ file ∈ ["l", "a"], ∃ i ∈ Stamp.editLines "<a>\n<b>".toList (targetsIn scattered file),
      (Stamp.editLines "<a>\n<b>".toList (targetsIn scattered file)).count i = 1 := by
    decide +kernel
  obtain ⟨i, hi, hcount⟩ := honce f.file hfile
  exact hmeans i hi (.inl hcount)

/-- Two tags in one line that have their identifiers. -/
def neighbourLine : Text :=
  "<a data-agent-id=\"x\"><b data-agent-id=\"y\">".toList

/-- A directory with a page of these tags. -/
def neighbours : Workspace where
  tree := ⟨[(["a.html"], .file (Utf8.encode neighbourLine))]⟩
  directory := ⟨[], 0⟩

/-- Requests for both of them, at the columns that they had without identifiers. -/
def stale : List Request :=
  [{ file := "a.html", target := { agentId := "y".toList, line := 1, column := 4, type := "b".toList } },
    { file := "a.html", target := { agentId := "x".toList, line := 1, column := 1, type := "a".toList } }]

/-- The second tag is not found, so its identifier goes to the first one, which then takes its own again: there is a
patch, and it is empty. -/
theorem patch_of_neighbours_is_empty :
    (stale.map fun r => (r.file, r.target.line, r.target.column)).Nodup ∧
      (stale.map fun r => r.target.agentId).Nodup ∧ (∀ r ∈ stale, Manifest.isAgentId r.target.agentId = true) ∧
      ∃ report w', (run stale {}).run neighbours = .ok report w' ∧
        ∃ f ∈ report.files, f.applied = 2 ∧ ∃ patch, f.patch = some patch ∧ patch.new = patch.old ∧
          patch.diff = [] := by
  refine ⟨by decide, by decide, by decide, ?_⟩
  have hfile : ∀ r ∈ stale, r.file = "a.html" := by decide
  have hshown : shownAs neighbours "a.html" = .ok "a.html" := by decide +kernel
  have hreturns : (run stale {}).Ends neighbours (Accounts neighbours stale {}) fun _ _ => False := by
    refine (ends_run_accounts neighbours stale {}).imp (fun _ _ h => h) fun failure w' h => ?_
    obtain ⟨-, r, hr, hstops⟩ := h rfl
    rw [hfile r hr] at hstops
    obtain hnul | ⟨-, hunshown⟩ := hstops
    · exact absurd hnul (by decide)
    · exact hunshown "a.html" hshown
  obtain ⟨report, w', hrun, haccounts⟩ := hreturns.exists_ok
  have hfiles : report.files.map FileReport.file = ["a.html"] := by
    rw [haccounts.files]
    decide +kernel
  obtain ⟨f, hf, hname⟩ := List.map_eq_singleton_iff.1 hfiles
  have hmem : f ∈ report.files := by rw [hf]; exact List.mem_cons_self
  obtain ⟨source, htells⟩ := haccounts.tells f hmem
  have htext : textAt neighbours "a.html" = .ok neighbourLine := by decide +kernel
  have hread := htells.read
  rw [hname, htext, Except.ok.injEq] at hread
  subst hread
  -- the requests come in the order in which they are carried out
  have horder : Stamp.Target.inOrder (targetsIn stale f.file) = stale.map Request.target := by
    rw [hname]
    exact Stamp.inOrder_of_pairwise (by decide)
  have happlied : f.applied = 2 := by
    rw [htells.applied]
    simp only [Stamp.run, horder]
    decide +kernel
  have hsame : (Stamp.run neighbourLine (targetsIn stale f.file)).text = neighbourLine := by
    simp only [Stamp.run, horder]
    decide +kernel
  have hmodified : (Stamp.run neighbourLine (targetsIn stale f.file)).modified = true := by
    rw [Stamp.Result.modified, ← htells.applied, happlied]
    rfl
  obtain ⟨shown, -, hpatch⟩ := htells.modified hmodified
  exact ⟨report, w', hrun, f, hmem, happlied, _, hpatch, hsame, diff_eq_nil_iff.2 hsame⟩

end TagStamp.Batch
