import TagStamp.Proofs.Batch.Grouping
import TagStamp.Proofs.Backup.Copies

namespace TagStamp.Batch

open TagStamp.Action

-- unfolding it would run the action
seal Action.Ends

/-- The place that an absolute path is written for. -/
def placeOf (path : String) : Location :=
  (Path.parse path).names

/-- What a report tells of a file: a patch leads from its text to what its targets make of it. -/
structure Annotates (t : FileTree) (group : String × List Stamp.Target) (report : FileReport) : Prop where
  file : report.file = group.1
  patch : ∀ patch, report.patch = some patch → ∃ octets, t.content? (placeOf group.1) = some octets ∧
    Utf8.decode octets = .ok patch.old ∧ patch.new = (Stamp.run patch.old group.2).text

/-- Paths that are written for places of a tree. -/
def Written (path : String) : Prop :=
  ∃ place : Location, (∀ name ∈ place, IsName name) ∧ path = (Path.absolute place).text

variable {w : Workspace} {path : String} {requests : List Request} {group : String × List Stamp.Target}

theorem placeOf_text {place : Location} (hplace : ∀ name ∈ place, IsName name) :
    placeOf (Path.absolute place).text = place := by
  rw [placeOf, Path.parse_text_absolute fun name hname => (hplace name hname).isStep]
  rfl

theorem Written.eq_text (h : Written path) : path = (Path.absolute (placeOf path)).text := by
  obtain ⟨place, hplace, rfl⟩ := h
  rw [placeOf_text hplace]

theorem Written.named (h : Written path) : ∀ name ∈ placeOf path, IsName name := by
  obtain ⟨place, hplace, rfl⟩ := h
  rw [placeOf_text hplace]
  exact hplace

theorem ends_readSource (hw : w.Sound) (hpath : Written path) :
    (readSource path).Ends w
      (fun result w' => (∀ source, result = .ok source → ∃ octets, w.tree.content? (placeOf path) = some octets ∧
        Utf8.decode octets = .ok source) ∧ w' = w)
      fun failure w' => failure.isDirect ∧ w' = w := by
  have hread := ends_readFile hw.linkless hpath.named
  rw [← hpath.eq_text] at hread
  simp only [readSource, ends_onDisk, ends_bind, ends_checkPath, ends_get]
  split
  · exact ⟨rfl, trivial⟩
  split
  · exact ends_throw.2 (ends_pure.2 ⟨by simp, rfl⟩)
  rw [ends_bind]
  refine hread.imp ?_ ?_
  · rintro octets _ ⟨hoctets, -, rfl⟩
    split
    · next source hsource =>
      refine ends_pure.2 ⟨?_, rfl⟩
      rintro _ ⟨⟩
      exact ⟨octets, hoctets, hsource⟩
    · exact ends_pure.2 ⟨by simp, rfl⟩
  · rintro failure _ ⟨hdirect, rfl⟩
    cases failure with
    | disk error => exact ends_pure.2 ⟨by simp, rfl⟩
    | _ => exact ⟨hdirect, rfl⟩

theorem ends_displayPath (hw : w.Sound) (path : String) :
    (displayPath path).Ends w (fun _ w' => w' = w) fun failure w' => failure.isDirect ∧ w' = w := by
  simp only [displayPath, ends_bind, ends_tryCatch, ends_pure, ends_workingDirectory]
  refine (ends_resolve hw.linkless fun name => Path.isStep_of_mem_parse).imp ?_ ?_
  · rintro _ _ ⟨rfl, -, rfl⟩
    rw [hw.kept]
    exact rfl
  · rintro failure _ ⟨hdirect, rfl⟩
    split
    · exact ends_pure.2 rfl
    · exact ends_throw.2 ⟨hdirect, rfl⟩

private theorem ends_forM_say_log (entries : List Log.Entry) :
    (entries.forM fun entry => say (.log entry)).Ends w (fun _ w' => w.Logged w') fun _ _ => False :=
  ends_forM (fun entry _ _ h => ends_say.2 (h.log entry)) (.refl w)

/-- Annotating a file changes nothing. -/
theorem ends_annotate (hw : w.Sound) (hpath : Written group.1) :
    (annotate group).Ends w
      (fun result w' => (∀ report, result = some report → Annotates w.tree group report) ∧ w.Logged w')
      fun failure w' => failure.isDirect ∧ w.Logged w' := by
  obtain ⟨path, targets⟩ := group
  simp only [annotate, ends_bind]
  refine (ends_readSource hw hpath).imp ?_ (by rintro _ _ ⟨h, rfl⟩; exact ⟨h, .refl _⟩)
  rintro result _ ⟨hsource, rfl⟩
  cases result with
  | error reason =>
    simp only [ends_bind, ends_log, ends_pure]
    exact ⟨by simp, (Workspace.Logged.refl _).log _⟩
  | ok source =>
    obtain ⟨octets, hoctets, hdecode⟩ := hsource source rfl
    simp only [ends_bind]
    refine (ends_forM_say_log _).imp (fun _ w₁ h₁ => ?_) fun _ _ h => h.elim
    split
    · simp only [ends_bind, ends_pure, ends_log]
      refine (ends_displayPath (h₁.evolves.sound hw) path).imp ?_
        (by rintro _ _ ⟨h, rfl⟩; exact ⟨h, h₁⟩)
      rintro shown _ rfl
      refine ⟨?_, h₁.log _⟩
      rintro _ ⟨⟩
      refine ⟨rfl, ?_⟩
      rintro _ ⟨⟩
      exact ⟨octets, hoctets, hdecode, rfl⟩
    · simp only [ends_bind, ends_pure, ends_log]
      refine ⟨?_, h₁.log _⟩
      rintro _ ⟨⟩
      exact ⟨rfl, by simp⟩

/-- The reports on all files, before any of them is written. -/
def review (requests : List Request) : Action (List FileReport) := do
  return (← (groupByFile requests).mapM annotate).filterMap id

/-- The reports come in the order of the groups, with some left out. -/
structure Reviews (t : FileTree) (requests : List Request) (files : List FileReport) : Prop where
  sublist : (files.map FileReport.file).Sublist ((groupByFile requests).map Prod.fst)
  annotates : ∀ report ∈ files, Annotates t (report.file, targetsIn requests report.file) report

private theorem reviews_of_forall₂ {t : FileTree} {groups : List (String × List Stamp.Target)}
    {results : List (Option FileReport)}
    (h : List.Forall₂ (fun group result => ∀ report, result = some report → Annotates t group report)
      groups results) :
    (((results.filterMap id).map FileReport.file).Sublist (groups.map Prod.fst)) ∧
      ∀ report ∈ results.filterMap id, ∃ group ∈ groups, Annotates t group report := by
  induction h with
  | nil => simp
  | @cons group result groups results hresult _ ih =>
    cases result with
    | none =>
      refine ⟨ih.1.trans (List.sublist_cons_self _ _), fun report hreport => ?_⟩
      obtain ⟨group', hgroup', hannotates⟩ := ih.2 report (by simpa using hreport)
      exact ⟨group', List.mem_cons_of_mem _ hgroup', hannotates⟩
    | some first =>
      have hfirst := hresult first rfl
      constructor
      · simp only [List.filterMap_cons, id, List.map_cons, hfirst.file]
        exact ih.1.cons_cons _
      · intro report hreport
        simp only [List.filterMap_cons, id, List.mem_cons] at hreport
        obtain rfl | hreport := hreport
        · exact ⟨group, List.mem_cons_self, hfirst⟩
        · obtain ⟨group', hgroup', hannotates⟩ := ih.2 report hreport
          exact ⟨group', List.mem_cons_of_mem _ hgroup', hannotates⟩

/-- Reviewing changes nothing. -/
theorem ends_review (hw : w.Sound) (hrequests : ∀ r ∈ requests, Written r.file) :
    (review requests).Ends w (fun files w' => Reviews w.tree requests files ∧ w.Logged w')
      fun failure w' => failure.isDirect ∧ w.Logged w' := by
  have hgroups := groups_groupByFile requests
  have hround (group : String × List Stamp.Target) (hgroup : group ∈ groupByFile requests) (w₁ : Workspace)
      (h₁ : w.Logged w₁) :
      (annotate group).Ends w₁
        (fun result w' => (∀ report, result = some report → Annotates w.tree group report) ∧ w.Logged w')
        fun failure w' => failure.isDirect ∧ w.Logged w' := by
    have hwritten : Written group.1 := by
      have hfile := (hgroups.files group.1).1 (List.mem_map_of_mem hgroup)
      obtain ⟨r, hr, heq⟩ := List.mem_map.1 hfile
      exact heq ▸ hrequests r hr
    rw [← h₁.tree]
    exact (ends_annotate (h₁.evolves.sound hw) hwritten).imp (fun _ _ h => ⟨h.1, h₁.trans h.2⟩)
      fun _ _ h => ⟨h.1, h₁.trans h.2⟩
  simp only [review, ends_bind, ends_pure]
  refine (ends_mapM hround (.refl w)).imp ?_ fun _ _ h => h
  rintro results w₁ ⟨hresults, h₁⟩
  obtain ⟨hsublist, hannotates⟩ := reviews_of_forall₂ hresults
  refine ⟨⟨hsublist, fun report hreport => ?_⟩, h₁⟩
  obtain ⟨group, hgroup, hannotate⟩ := hannotates report hreport
  rw [hannotate.file, ← hgroups.targets group hgroup]
  exact hannotate

end TagStamp.Batch
