import TagStamp.Proofs.FileTree.Resolution
import TagStamp.Proofs.Workspace.Frame

namespace TagStamp

@[simp]
theorem Obstacle.isNoEntry_error (cause : Obstacle) : cause.error.isNoEntry = cause.gone := rfl

/-- There is a directory at the place, its path leads to it, and no outside cause makes it look missing. -/
structure Workspace.Opens (place : Location) (w : Workspace) : Prop where
  leads : w.tree.Leads place
  directory : w.tree.get? place = some .directory
  readable : '\x00' ∉ (Path.absolute place).text.toList
  visible : ∀ cause, w.faults.makeDirectory (Path.absolute place).text = some cause → cause.gone = false

theorem Workspace.Evolves.opens {touched : Set Location} {place : Location} {w w' : Workspace}
    (h : w.Evolves touched w') (hplace : w.Opens place) : w'.Opens place :=
  ⟨h.leads hplace.leads, h.directories place hplace.directory, hplace.readable, h.faults ▸ hplace.visible⟩

/-- No file was touched, and there is a directory at the place now. -/
structure Workspace.Provides (place : Location) (w w' : Workspace) : Prop extends w'.Opens place where
  evolves : w.Evolves ∅ w'

/-- A file has the content of another one, and nothing is in the way of copying it once more. -/
structure Workspace.Copied (source target : Location) (w : Workspace) : Prop where
  apart : source ≠ target
  readable : '\x00' ∉ (Path.absolute source).text.toList
  writable : '\x00' ∉ (Path.absolute target).text.toList
  unhindered : w.faults.copy (Path.absolute target).text = none
  leads_source : w.tree.Leads source
  leads_target : w.tree.Leads target
  content : ∃ octets, w.tree.content? source = some octets ∧ w.tree.content? target = some octets

theorem Workspace.Evolves.copied {touched : Set Location} {source target : Location} {w w' : Workspace}
    (h : w.Evolves touched w') (hsource : source ∉ touched) (htarget : target ∉ touched)
    (hcopied : w.Copied source target) : w'.Copied source target where
  apart := hcopied.apart
  readable := hcopied.readable
  writable := hcopied.writable
  unhindered := by rw [h.faults, hcopied.unhindered]
  leads_source := h.leads hcopied.leads_source
  leads_target := h.leads hcopied.leads_target
  content := by rw [h.content source hsource, h.content target htarget]; exact hcopied.content

/-- What the removal of a directory leaves of a tree, if an outside cause stops it or not. -/
def Faults.remains (faults : Faults) (t : FileTree) (place : Location) : FileTree :=
  if faults.removeTree.isSome then t.thin place faults.removed else t.prune place

/-- What is outside of a directory stays when the directory is removed. -/
theorem Faults.content?_remains (faults : Faults) {t : FileTree} {place other : Location}
    (hplace : t.get? place = some .directory) (hother : ¬ place <+: other) :
    (faults.remains t place).content? other = t.content? other := by
  unfold remains
  split
  · exact FileTree.content?_thin faults.removed hother
  · rw [FileTree.content?_prune hplace, if_neg hother]

/-- A directory was removed with everything in it, unless an outside cause kept a part of it. -/
structure Workspace.Pruned (place : Location) (w w' : Workspace) : Prop where
  tree : w'.tree = w.faults.remains w.tree place
  transcript : ∃ entries : List Log.Entry, w'.transcript = w.transcript ++ entries.map .log

theorem Workspace.Pruned.content {place other : Location} {w w' : Workspace} (h : w.Pruned place w')
    (hplace : w.tree.get? place = some .directory) (hother : ¬ place <+: other) :
    w'.tree.content? other = w.tree.content? other := by
  rw [h.tree, w.faults.content?_remains hplace hother]

theorem Workspace.Pruned.log {place : Location} {w w' : Workspace} (h : w.Pruned place w') (entry : Log.Entry) :
    w.Pruned place { w' with transcript := w'.transcript ++ [.log entry] } := by
  obtain ⟨entries, hentries⟩ := h.transcript
  exact ⟨h.tree, entries ++ [entry], by simp [hentries]⟩

namespace Action

open FileTree

variable {w : Workspace} {place source target : Location} {content : List UInt8}

/-- An entry that is found is what the path leads to. -/
theorem ends_probe_found (path : String) :
    (probe path).Ends w
      (fun entry w' => w' = w ∧ ∀ e, entry = some e → '\x00' ∉ path.toList ∧
        ∃ here, w.tree.locate w.directory .target path = .found here e)
      fun failure w' => failure.isDirect ∧ w' = w := by
  unfold probe
  split
  · exact ⟨rfl, by simp⟩
  next hnul =>
  simp only [ends_bind, ends_look]
  split
  · next here entry hfound =>
    refine ⟨rfl, ?_⟩
    rintro e ⟨⟩
    exact ⟨by simpa using hnul, here, hfound⟩
  · exact ⟨rfl, by simp⟩
  · exact ⟨rfl, rfl⟩
  · exact ⟨rfl, by simp⟩

theorem ends_isFile (path : String) :
    (isFile path).Ends w (fun _ w' => w' = w) fun failure w' => failure.isDirect ∧ w' = w := by
  rw [isFile, ends_bind]
  refine (ends_probe_found path).imp ?_ fun _ _ h => h
  rintro entry _ ⟨rfl, -⟩
  split <;> exact rfl

theorem ends_readFile_found (path : String) :
    (readFile path).Ends w
      (fun content w' => (∃ here, w.tree.locate w.directory .target path = .found here (.file content)) ∧ w' = w)
      fun failure w' => failure.isDirect ∧ w' = w := by
  simp only [readFile, ends_bind, ends_checkPath, ends_look]
  split
  · exact ⟨rfl, trivial⟩
  split
  · next here content hfound => exact ⟨⟨here, hfound⟩, rfl⟩
  all_goals exact ⟨rfl, rfl⟩

theorem ends_probe (ht : w.tree.Linkless) (hplace : ∀ name ∈ place, IsName name) :
    (probe (Path.absolute place).text).Ends w
      (fun entry w' => w' = w ∧ ∀ e, entry = some e → w.tree.Leads place ∧ w.tree.get? place = some e ∧
        '\x00' ∉ (Path.absolute place).text.toList)
      fun failure w' => failure.isDirect ∧ w' = w := by
  refine (ends_probe_found _).imp ?_ fun _ _ h => h
  rintro entry w' ⟨hw', hentry⟩
  refine ⟨hw', fun e he => ?_⟩
  obtain ⟨hnul, here, hfound⟩ := hentry e he
  rw [locate_eq_found_iff ht hplace] at hfound
  exact ⟨hfound.1, hfound.2.2, hnul⟩

theorem ends_probe_of_leads (ht : w.tree.Linkless) (hplace : ∀ name ∈ place, IsName name)
    (hleads : w.tree.Leads place) {entry : Entry} (hentry : w.tree.get? place = some entry)
    (hnul : '\x00' ∉ (Path.absolute place).text.toList) :
    (probe (Path.absolute place).text).Ends w (fun found w' => found = some entry ∧ w' = w) fun _ _ => False := by
  have hfound : w.tree.locate w.directory .target (Path.absolute place).text = .found ⟨place, 0⟩ entry :=
    (locate_eq_found_iff ht hplace).2 ⟨hleads, rfl, hentry⟩
  unfold probe
  split
  · next h => exact absurd (List.contains_iff_mem.1 h) hnul
  · rw [ends_bind, ends_look, hfound]
    exact ⟨rfl, rfl⟩

theorem ends_readFile (ht : w.tree.Linkless) (hplace : ∀ name ∈ place, IsName name) :
    (readFile (Path.absolute place).text).Ends w
      (fun content w' => w.tree.content? place = some content ∧ w.tree.Leads place ∧ w' = w)
      fun failure w' => failure.isDirect ∧ w' = w := by
  refine (ends_readFile_found _).imp ?_ fun _ _ h => h
  rintro content w' ⟨⟨here, hfound⟩, hw'⟩
  rw [locate_eq_found_iff ht hplace] at hfound
  exact ⟨content?_eq_some_iff.2 hfound.2.2, hfound.1, hw'⟩

theorem ends_writeFile (ht : w.tree.Linkless) (hplace : ∀ name ∈ place, IsName name) (content : List UInt8) :
    (writeFile (Path.absolute place).text content).Ends w
      (fun _ w' => w.Evolves {place} w' ∧ w'.tree.content? place = some content ∧ w'.tree.Leads place)
      fun failure w' => failure.isDirect ∧ w' = w := by
  have hset (hleads : w.tree.Leads place) (h : w.tree.get? place ≠ some .directory) :
      w.Evolves {place} { w with tree := w.tree.set place (.file content) } ∧
        (w.tree.set place (.file content)).content? place = some content ∧
        (w.tree.set place (.file content)).Leads place := by
    have hevolves := w.evolves_set_file h content
    refine ⟨hevolves, ?_, hevolves.leads hleads⟩
    rw [content?_set_file (by rintro rfl; simp at h), if_pos rfl]
  simp only [writeFile, ends_bind, ends_checkPath, ends_get, ends_look]
  split
  · exact ⟨rfl, trivial⟩
  split
  · next here _ hfound =>
    rw [locate_eq_found_iff ht hplace] at hfound
    obtain ⟨hleads, rfl, hget⟩ := hfound
    exact hset hleads (by simp [hget])
  · exact ⟨rfl, rfl⟩
  · exact ⟨rfl, rfl⟩
  · next directory name hfree =>
    rw [locate_eq_free_iff ht hplace] at hfree
    obtain ⟨hleads, hname, hget⟩ := hfree
    rw [hname]
    exact hset hleads (by simp [hget])
  · exact ⟨rfl, rfl⟩

theorem ends_interrupt (ht : w.tree.Linkless) (hplace : ∀ name ∈ place, IsName name) (cause : Interruption) :
    (interrupt cause (Path.absolute place).text).Ends w (fun _ _ => False)
      fun failure w' => failure.isDirect ∧ w.Evolves {place} w' := by
  unfold interrupt
  split
  · simp only [ends_bind, ends_throw]
    refine (ends_writeFile ht hplace _).imp (fun _ _ h => ⟨rfl, h.1⟩) ?_
    rintro failure _ ⟨hdirect, rfl⟩
    exact ⟨hdirect, .refl _ _⟩
  · exact ⟨rfl, .refl _ w⟩

theorem ends_makeDirectory (ht : w.tree.Linkless) (hplace : ∀ name ∈ place, IsName name) :
    (makeDirectory (Path.absolute place).text).Ends w (fun _ w' => w.Provides place w')
      fun failure w' => failure.isDirect ∧ w' = w ∧ ∀ error, failure = .disk error →
        ∀ cause, w.faults.makeDirectory (Path.absolute place).text = some cause → error = cause.error := by
  simp only [makeDirectory, ends_bind, ends_checkPath, ends_get]
  split
  · exact ⟨rfl, trivial, by rintro _ ⟨⟩⟩
  next hnul =>
  cases hcause : w.faults.makeDirectory (Path.absolute place).text with
  | some cause =>
    refine ⟨rfl, rfl, ?_⟩
    rintro _ ⟨⟩ _ ⟨⟩
    rfl
  | none =>
  simp only [ends_bind, ends_look]
  split
  · exact ⟨rfl, rfl, by simp⟩
  · next directory name hfree =>
    rw [locate_eq_free_iff ht hplace] at hfree
    obtain ⟨hleads, hname, hget⟩ := hfree
    rw [hname]
    have hevolves := w.evolves_set_directory hget
    exact ⟨⟨hevolves.leads hleads, get?_set_self _ _ (by rintro rfl; simp at hget), by simpa using hnul,
      by simp [hcause]⟩, hevolves⟩
  · exact ⟨rfl, rfl, by simp⟩

theorem ends_unlessDirectory (ht : w.tree.Linkless) (hplace : ∀ name ∈ place, IsName name)
    (hvisible : ∀ cause, w.faults.makeDirectory (Path.absolute place).text = some cause → cause.gone = false)
    (error : DiskError) :
    (unlessDirectory (Path.absolute place).text error).Ends w
      (fun _ w' => w.Provides place w') fun failure w' => failure.isDirect ∧ w' = w := by
  simp only [unlessDirectory, isDirectory, ends_bind, ends_pure]
  refine (ends_probe ht hplace).imp ?_ fun _ _ h => h
  rintro entry _ ⟨rfl, hentry⟩
  split
  · next hdirectory =>
    obtain ⟨hleads, hget, hnul⟩ := hentry _ (by simpa using hdirectory)
    exact ⟨⟨hleads, hget, hnul, hvisible⟩, .refl _ _⟩
  · exact ⟨rfl, rfl⟩

/-- An attempt to make a directory. What is missing on the way is left to `missing`. -/
theorem ends_onDisk_makeDirectory (ht : w.tree.Linkless) (hplace : ∀ name ∈ place, IsName name)
    {missing : DiskError → Action Unit}
    (hmissing : ∀ error, (missing error).Ends w (fun _ w' => w.Provides place w')
      fun failure w' => failure.isDirect ∧ w.Evolves ∅ w') :
    (onDisk (makeDirectory (Path.absolute place).text) fun error =>
      if error.isNoEntry then missing error else unlessDirectory (Path.absolute place).text error).Ends w
      (fun _ w' => w.Provides place w') fun failure w' => failure.isDirect ∧ w.Evolves ∅ w' := by
  rw [ends_onDisk]
  refine (ends_makeDirectory ht hplace).imp (fun _ _ h => h) ?_
  rintro failure w ⟨hdirect, rfl, hcaused⟩
  cases failure with
  | disk error =>
    simp only
    split
    · exact hmissing error
    · next hpresent =>
      have hvisible : ∀ cause, w.faults.makeDirectory (Path.absolute place).text = some cause →
          cause.gone = false := by
        intro cause hcause
        rwa [hcaused error rfl cause hcause, Obstacle.isNoEntry_error, Bool.not_eq_true] at hpresent
      refine (ends_unlessDirectory ht hplace hvisible error).imp (fun _ _ h => h) ?_
      rintro failure _ ⟨hdirect, rfl⟩
      exact ⟨hdirect, .refl _ _⟩
  | _ => exact ⟨hdirect, .refl _ _⟩

/-- Making directories touches no file. -/
theorem ends_makeDirectoriesFrom (above : Nat) (ht : w.tree.Linkless) (hplace : ∀ name ∈ place, IsName name) :
    (makeDirectoriesFrom above (.absolute place)).Ends w (fun _ w' => w.Provides place w')
      fun failure w' => failure.isDirect ∧ w.Evolves ∅ w' := by
  induction above generalizing w place with
  | zero => exact ends_onDisk_makeDirectory ht hplace fun error => ⟨rfl, .refl _ w⟩
  | succ above ih =>
    refine ends_onDisk_makeDirectory ht hplace fun error => ?_
    have hparent : ∀ name ∈ place.dropLast, IsName name := fun name h => hplace name (List.mem_of_mem_dropLast h)
    rw [ends_bind]
    refine (ih ht hparent).imp (fun _ w₁ h₁ => ?_) fun _ _ h => h
    refine (ends_onDisk_makeDirectory (h₁.evolves.linkless ht) hplace fun error => ?_).imp
      (fun _ _ h => ⟨h.toOpens, h₁.evolves.trans h.evolves⟩)
      fun _ _ h => ⟨h.1, h₁.evolves.trans h.2⟩
    exact ⟨rfl, .refl _ w₁⟩

theorem ends_makeDirectories (ht : w.tree.Linkless) (hplace : ∀ name ∈ place, IsName name) :
    (makeDirectories (.absolute place)).Ends w (fun _ w' => w.Provides place w')
      fun failure w' => failure.isDirect ∧ w.Evolves ∅ w' :=
  ends_makeDirectoriesFrom _ ht hplace

theorem ends_sameEntry (a b : String) :
    (sameEntry a b).Ends w
      (fun same w' => w' = w ∧ (same = true ↔ ∃ here entry entry',
        w.tree.locate w.directory .target a = .found here entry ∧
          w.tree.locate w.directory .target b = .found here entry'))
      fun _ _ => False := by
  simp only [sameEntry, ends_bind, ends_look]
  split
  · next here entry there entry' ha hb =>
    refine ends_pure.2 ⟨rfl, ?_⟩
    rw [ha, hb, beq_iff_eq]
    constructor
    · rintro rfl
      exact ⟨here, entry, entry', rfl, rfl⟩
    · rintro ⟨_, _, _, ⟨⟩, ⟨⟩⟩
      rfl
  · next hother =>
    refine ends_pure.2 ⟨rfl, ?_⟩
    simp only [Bool.false_eq_true, false_iff]
    rintro ⟨here, entry, entry', ha, hb⟩
    exact hother _ _ _ _ ha hb

theorem ends_writeCopy (ht : w.tree.Linkless) (hplace : ∀ name ∈ place, IsName name) (content : List UInt8) :
    (writeCopy (Path.absolute place).text content).Ends w
      (fun _ w' => w.Evolves {place} w' ∧ w'.tree.content? place = some content ∧ w'.tree.Leads place)
      fun failure w' => failure.isDirect ∧ w' = w := by
  rw [writeCopy, ends_onDisk]
  refine (ends_writeFile ht hplace content).imp (fun _ _ h => h) ?_
  rintro failure _ ⟨hdirect, rfl⟩
  cases failure with
  | disk error =>
    simp only [ends_bind, ends_look]
    split <;> exact ⟨rfl, rfl⟩
  | _ => exact ⟨hdirect, rfl⟩

/-- A copy has the content of its source. -/
theorem ends_copyFile (ht : w.tree.Linkless) (hsource : ∀ name ∈ source, IsName name)
    (htarget : ∀ name ∈ target, IsName name) :
    (copyFile (.absolute source) (.absolute target)).Ends w
      (fun _ w' => w.Evolves {target} w' ∧ w'.Copied source target)
      fun failure w' => failure.isDirect ∧ w.Evolves {target} w' := by
  have hrefl : w.Evolves {target} w := .refl _ w
  simp only [copyFile, ends_bind, ends_get]
  split
  · exact ⟨rfl, hrefl⟩
  simp only [ends_bind, ends_checkPath]
  split
  · exact ⟨rfl, hrefl⟩
  next hreadable =>
  split
  · exact ⟨rfl, hrefl⟩
  next hwritable =>
  refine (ends_sameEntry _ _).imp ?_ fun _ _ h => h.elim
  rintro same w ⟨rfl, hsame⟩
  split
  · exact ⟨rfl, hrefl⟩
  next hdifferent =>
  rw [ends_bind]
  refine (ends_readFile ht hsource).imp ?_ (by rintro _ _ ⟨hdirect, rfl⟩; exact ⟨hdirect, hrefl⟩)
  rintro content w ⟨hcontent, hleads, rfl⟩
  have hfound : w.tree.locate w.directory .target (Path.absolute source).text = .found ⟨source, 0⟩ (.file content) :=
    (locate_eq_found_iff ht hsource).2 ⟨hleads, rfl, content?_eq_some_iff.1 hcontent⟩
  have hapart : source ≠ target := by
    rintro rfl
    exact hdifferent (hsame.2 ⟨_, _, _, hfound, hfound⟩)
  split
  · rw [ends_bind]
    exact (ends_interrupt ht htarget _).imp (fun _ _ h => h.elim) fun _ _ h => h
  · next hcause =>
    refine (ends_writeCopy ht htarget content).imp ?_ (by rintro _ _ ⟨hdirect, rfl⟩; exact ⟨hdirect, hrefl⟩)
    rintro _ w' ⟨hevolves, hcopy, hopen⟩
    exact ⟨hevolves, {
      apart := hapart
      readable := by simpa using hreadable
      writable := by simpa using hwritable
      unhindered := by
        rw [hevolves.faults]
        exact Option.eq_none_iff_forall_ne_some.2 hcause
      leads_source := hevolves.leads hleads
      leads_target := hopen
      content := ⟨content, (hevolves.content source hapart).trans hcontent, hcopy⟩ }⟩

theorem ends_removeDirectory (ht : w.tree.Linkless) (hplace : ∀ name ∈ place, IsName name)
    (hleads : w.tree.Leads place) (hdirectory : w.tree.get? place = some .directory) :
    (removeDirectory (.absolute place)).Ends w (fun _ w' => place ≠ [] ∧ w' = w.erase place)
      fun failure w' => (∃ error, failure = .disk error) ∧ place = [] ∧ w' = w := by
  have hfound : w.tree.locate w.directory .entry (Path.absolute place).text = .found ⟨place, 0⟩ .directory :=
    (locate_eq_found_iff ht hplace).2 ⟨hleads, rfl, hdirectory⟩
  unfold removeDirectory
  split
  · next hlast => exact ⟨⟨_, rfl⟩, List.getLast?_eq_none_iff.1 hlast, rfl⟩
  · next hlast => exact absurd rfl (hplace ".." (List.mem_of_getLast? hlast)).dots
  · next name _ hlast =>
    rw [ends_bind, ends_look, hfound]
    exact ⟨List.ne_nil_of_mem (List.mem_of_getLast? hlast), rfl⟩

private theorem tree_thin (w : Workspace) (place : Location) (below : List Location) :
    (w.thin place below).tree = w.tree.thin place below ∧ (w.thin place below).transcript = w.transcript := by
  unfold Workspace.thin thin
  generalize below.filter (· ≠ []) = gone
  induction gone generalizing w with
  | nil => exact ⟨rfl, rfl⟩
  | cons rest gone ih => exact ih (w.erase (place ++ rest))

/-- A removal that is stopped takes away a part of what was in the directory. -/
theorem ends_stopRemoval {error : DiskError}
    (hfound : w.tree.locate w.directory .entry (Path.absolute place).text = .found ⟨place, 0⟩ .directory) :
    (stopRemoval error (.absolute place)).Ends w (fun _ _ => False)
      fun failure w' => failure = .disk error ∧ w' = w.thin place w.faults.removed := by
  simp only [stopRemoval, ends_bind, ends_get, ends_look, hfound]
  exact ⟨rfl, rfl⟩

/-- A directory that can be looked up is emptied, and then removed unless it is the root. -/
theorem ends_removeTree (ht : w.tree.Linkless) (hplace : ∀ name ∈ place, IsName name)
    (hleads : w.tree.Leads place) (hdirectory : w.tree.get? place = some .directory)
    (hnul : '\x00' ∉ (Path.absolute place).text.toList) :
    (removeTree (.absolute place)).Ends w (fun _ w' => w.Pruned place w')
      fun failure w' => (∃ error, failure = .disk error) ∧ w.Pruned place w' := by
  have hfound : w.tree.locate w.directory .entry (Path.absolute place).text = .found ⟨place, 0⟩ .directory :=
    (locate_eq_found_iff ht hplace).2 ⟨hleads, rfl, hdirectory⟩
  simp only [removeTree, ends_bind, ends_get]
  cases hfault : w.faults.removeTree with
  | some error =>
    refine (ends_stopRemoval hfound).imp (fun _ _ h => h.elim) ?_
    rintro _ _ ⟨rfl, rfl⟩
    obtain ⟨htree, hsaid⟩ := tree_thin w place w.faults.removed
    exact ⟨⟨error, rfl⟩, by simp [Faults.remains, hfault, htree], [], by simp [hsaid]⟩
  | none =>
    have hempty := ends_removeDirectory (w := w.clear place) (ht.clear place) hplace
      (hleads.mono fun other hother h => (get?_clear_above hother).trans h)
      ((get?_clear_above (List.prefix_refl place)).trans hdirectory)
    simp only [ends_bind, ends_checkPath, ends_look, hfound, List.contains_iff_mem, hnul, if_false]
    refine hempty.imp ?_ ?_
    · rintro _ _ ⟨hroot, rfl⟩
      exact ⟨by simp [Faults.remains, hfault, prune, hroot, Workspace.erase, Workspace.clear], [],
        by simp [Workspace.erase, Workspace.clear]⟩
    · rintro _ _ ⟨herror, hroot, rfl⟩
      exact ⟨herror, by simp [Faults.remains, hfault, prune, hroot, Workspace.clear], [], by simp [Workspace.clear]⟩

end Action

end TagStamp
