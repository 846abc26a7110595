import TagStamp.Proofs.Workspace.Disk

namespace TagStamp

/-- Every place holds what it held. -/
structure Workspace.Unchanged (w w' : Workspace) : Prop extends w.Evolves ∅ w' where
  entries : ∀ place, w'.tree.get? place = w.tree.get? place

namespace Workspace.Unchanged

variable {w w' w'' : Workspace}

theorem refl (w : Workspace) : w.Unchanged w :=
  ⟨.refl _ w, fun _ => rfl⟩

theorem trans (h : w.Unchanged w') (h' : w'.Unchanged w'') : w.Unchanged w'' :=
  ⟨h.toEvolves.trans h'.toEvolves, fun place => (h'.entries place).trans (h.entries place)⟩

theorem log (h : w.Unchanged w') (entry : Log.Entry) :
    w.Unchanged { w' with transcript := w'.transcript ++ [.log entry] } :=
  ⟨h.toEvolves.log entry, h.entries⟩

end Workspace.Unchanged

namespace Action

open FileTree

variable {w : Workspace} {place source target : Location} {content : List UInt8}

theorem ends_unlessDirectory_of_opens (ht : w.tree.Linkless) (hplace : ∀ name ∈ place, IsName name)
    (hopens : w.Opens place) (error : DiskError) :
    (unlessDirectory (Path.absolute place).text error).Ends w (fun _ w' => w' = w) fun _ _ => False := by
  simp only [unlessDirectory, isDirectory, ends_bind, ends_pure]
  refine (ends_probe_of_leads ht hplace hopens.leads hopens.directory hopens.readable).imp ?_ fun _ _ h => h
  rintro _ _ ⟨rfl, rfl⟩
  exact rfl

/-- An attempt to make a directory that exists fails, but not because something is missing. -/
theorem ends_onDisk_makeDirectory_of_opens (ht : w.tree.Linkless) (hplace : ∀ name ∈ place, IsName name)
    (hopens : w.Opens place) (missing : DiskError → Action Unit) :
    (onDisk (makeDirectory (Path.absolute place).text) fun error =>
      if error.isNoEntry then missing error else unlessDirectory (Path.absolute place).text error).Ends w
      (fun _ w' => w' = w) fun _ _ => False := by
  have hfound : w.tree.locate w.directory .entry (Path.absolute place).text = .found ⟨place, 0⟩ .directory :=
    (locate_eq_found_iff ht hplace).2 ⟨hopens.leads, rfl, hopens.directory⟩
  simp only [ends_onDisk, makeDirectory, ends_bind, ends_checkPath, ends_get, List.contains_iff_mem,
    hopens.readable, if_false]
  split
  · next cause hcause =>
    rw [ends_bind, ends_throw]
    simp only [Obstacle.isNoEntry_error, hopens.visible cause hcause, Bool.false_eq_true, if_false]
    exact ends_unlessDirectory_of_opens ht hplace hopens _
  · rw [ends_bind, ends_look, hfound]
    exact ends_unlessDirectory_of_opens ht hplace hopens _

theorem ends_makeDirectories_of_opens (ht : w.tree.Linkless) (hplace : ∀ name ∈ place, IsName name)
    (hopens : w.Opens place) :
    (makeDirectories (.absolute place)).Ends w (fun _ w' => w' = w) fun _ _ => False := by
  rw [makeDirectories]
  cases (Path.absolute place).names.length with
  | zero => exact ends_onDisk_makeDirectory_of_opens ht hplace hopens _
  | succ above => exact ends_onDisk_makeDirectory_of_opens ht hplace hopens _

/-- A file is overwritten with what it holds. -/
theorem ends_writeCopy_of_content (ht : w.tree.Linkless) (hplace : ∀ name ∈ place, IsName name)
    (hleads : w.tree.Leads place) (hnul : '\x00' ∉ (Path.absolute place).text.toList)
    (hcontent : w.tree.content? place = some content) :
    (writeCopy (Path.absolute place).text content).Ends w (fun _ w' => w.Unchanged w') fun _ _ => False := by
  have hget := content?_eq_some_iff.1 hcontent
  have hfound : w.tree.locate w.directory .writing (Path.absolute place).text = .found ⟨place, 0⟩ (.file content) :=
    (locate_eq_found_iff ht hplace).2 ⟨hleads, rfl, hget⟩
  simp only [writeCopy, ends_onDisk, writeFile, ends_bind, ends_checkPath, ends_get, ends_look, hfound,
    List.contains_iff_mem, hnul, if_false]
  have hentries (other : Location) : (w.tree.set place (.file content)).get? other = w.tree.get? other := by
    by_cases heq : other = place
    · rw [heq, get?_set_self _ _ (by rintro rfl; simp at hget), hget]
    · exact get?_set_of_ne _ _ heq
  have hevolves : w.Evolves {place} { w with tree := w.tree.set place (.file content) } :=
    w.evolves_set_file (by simp [hget]) content
  exact ⟨{ hevolves with content := fun other _ => content?_congr (hentries other) }, hentries⟩

/-- A file is copied to where its copy is. -/
theorem ends_copyFile_of_copied (ht : w.tree.Linkless) (hsource : ∀ name ∈ source, IsName name)
    (htarget : ∀ name ∈ target, IsName name) (hcopied : w.Copied source target) :
    (copyFile (.absolute source) (.absolute target)).Ends w (fun _ w' => w.Unchanged w') fun _ _ => False := by
  obtain ⟨octets, hread, hwritten⟩ := hcopied.content
  have hfound : w.tree.locate w.directory .target (Path.absolute source).text = .found ⟨source, 0⟩ (.file octets) :=
    (locate_eq_found_iff ht hsource).2 ⟨hcopied.leads_source, rfl, content?_eq_some_iff.1 hread⟩
  simp only [copyFile, ends_bind, ends_get, hcopied.unhindered, ends_checkPath, List.contains_iff_mem,
    hcopied.readable, hcopied.writable, if_false]
  refine (ends_sameEntry _ _).imp ?_ fun _ _ h => h
  rintro same w ⟨rfl, hsame⟩
  split
  · next htrue =>
    obtain ⟨here, entry, entry', hhere, hthere⟩ := hsame.1 htrue
    rw [locate_eq_found_iff ht hsource] at hhere
    rw [locate_eq_found_iff ht htarget, hhere.2.1] at hthere
    exact hcopied.apart (Standpoint.mk.inj hthere.2.1).1
  simp only [readFile, ends_bind, ends_checkPath, List.contains_iff_mem, hcopied.readable, if_false, ends_look,
    hfound, ends_pure]
  exact ends_writeCopy_of_content ht htarget hcopied.leads_target hcopied.writable hwritten

end Action

end TagStamp
