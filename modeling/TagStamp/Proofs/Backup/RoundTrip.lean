import TagStamp.Proofs.Backup.Copies
import TagStamp.Proofs.Workspace.Again

namespace TagStamp.Backup

open TagStamp.Action

-- unfolding it would run the action
seal Action.Ends

/-- The place of the backup directory. -/
def place (backup : Backup) : Location :=
  (Path.parse backup.directory).names

variable {w w₁ w₂ w₃ : Workspace} {root : Location} {files : List Location}

theorem Settled.of_evolves {touched : Set Location} {source target : Location} (h : Settled source target w)
    (hevolves : w.Evolves touched w₁) (hsource : source ∉ touched) (htarget : target ∉ touched) :
    Settled source target w₁ :=
  ⟨hevolves.opens h.parent, hevolves.copied hsource htarget h.copied⟩

/-- Every file that is put back stays where it is while the others are put back. -/
theorem ends_forM_putBack_settled (hw : w.tree.Linkless) (hroot : ∀ name ∈ root, IsName name)
    (hfiles : ∀ file ∈ files, ∀ name ∈ file, IsName name) (houtside : ∀ file ∈ files, ¬ root <+: file) :
    (files.forM fun file => putBack (.absolute root) (part files file)).Ends w
      (fun _ w' => w'.tree.Linkless ∧ ∀ file ∈ files, Settled (copyPlace root files file) file w')
      fun _ _ => True := by
  have hround (file : Location) (hfile : file ∈ files) (w₁ : Workspace) (h₁ : w₁.tree.Linkless) :
      (putBack (.absolute root) (part files file)).Ends w₁
        (fun _ w' => w'.tree.Linkless ∧ Settled (copyPlace root files file) file w' ∧ ∀ other ∈ files,
          Settled (copyPlace root files other) other w₁ → Settled (copyPlace root files other) other w')
        fun _ _ => True := by
    refine (ends_putBack h₁ hroot (hfiles file hfile)).imp
      (fun _ w₂ ⟨hevolves, hsettled⟩ => ⟨hevolves.linkless h₁, hsettled, fun other hother h => ?_⟩)
      fun _ _ _ => trivial
    by_cases heq : other = file
    · rw [heq]
      exact hsettled
    · refine h.of_evolves hevolves (fun hcopy => houtside file hfile ?_) heq
      rw [← Set.mem_singleton_iff.1 hcopy]
      exact prefix_copyPlace root files other
  exact (ends_forM_facts hround (List.Subset.refl files) hw).imp (fun _ _ h => ⟨h.1, h.2.1⟩) fun _ _ h => h

/-- What a restored backup leaves behind. -/
theorem ends_restore_settled (hw : w.tree.Linkless) (hroot : ∀ name ∈ root, IsName name)
    (hfiles : ∀ file ∈ files, ∀ name ∈ file, IsName name) (houtside : ∀ file ∈ files, ¬ root <+: file) :
    (restore ⟨(Path.absolute root).text, texts files⟩).Ends w
      (fun _ w' => ¬ (files = [] ∧ w.directory.isLost) ∧ w'.tree.Linkless ∧
        ∀ file ∈ files, Settled (copyPlace root files file) file w')
      fun _ _ => True := by
  have hparse : Path.parse (Path.absolute root).text = .absolute root :=
    Path.parse_text_absolute fun name hname => (hroot name hname).isStep
  simp only [restore, hparse, ends_bind, ends_onDisk, ends_layout hfiles, ends_log, ends_throw]
  split
  · exact trivial
  next hplaced =>
  rw [forM_map_part]
  refine (ends_forM_putBack_settled hw hroot hfiles houtside).imp ?_ ?_
  · rintro _ w₁ ⟨hlinkless, hsettled⟩
    refine ⟨hplaced, hlinkless, fun file hfile => ?_⟩
    have hlogged := Workspace.Evolves.log (.refl ∅ w₁)
    exact (hsettled file hfile).of_evolves (hlogged _) (Set.notMem_empty _) (Set.notMem_empty _)
  · intro failure _ _
    cases failure <;> exact trivial

/-- A file that was put back is put back again. -/
theorem ends_putBack_again {file : Location} (hw : w.tree.Linkless) (hroot : ∀ name ∈ root, IsName name)
    (hfile : ∀ name ∈ file, IsName name) (hsettled : Settled (copyPlace root files file) file w) :
    (putBack (.absolute root) (part files file)).Ends w (fun _ w' => w.Unchanged w') fun _ _ => False := by
  have hparent : ∀ name ∈ file.dropLast, IsName name := fun name hname => hfile name (List.mem_of_mem_dropLast hname)
  rw [putBack, ends_bind]
  refine (ends_makeDirectories_of_opens hw hparent hsettled.parent).imp ?_ fun _ _ h => h
  rintro _ _ rfl
  exact ends_copyFile_of_copied hw (isName_of_mem_copyPlace hroot hfile) hfile hsettled.copied

/-- A backup that was restored is restored again, and nothing is different then. -/
theorem ends_restore_again (hw : w.tree.Linkless) (hroot : ∀ name ∈ root, IsName name)
    (hfiles : ∀ file ∈ files, ∀ name ∈ file, IsName name) (hplaced : ¬ (files = [] ∧ w.directory.isLost))
    (hsettled : ∀ file ∈ files, Settled (copyPlace root files file) file w) :
    (restore ⟨(Path.absolute root).text, texts files⟩).Ends w (fun _ w' => w.Unchanged w') fun _ _ => False := by
  have hparse : Path.parse (Path.absolute root).text = .absolute root :=
    Path.parse_text_absolute fun name hname => (hroot name hname).isStep
  have hround (file : Location) (hfile : file ∈ files) (w₁ : Workspace) (h₁ : w.Unchanged w₁) :
      (putBack (.absolute root) (part files file)).Ends w₁ (fun _ w' => w.Unchanged w') fun _ _ => False := by
    have hsettled₁ := (hsettled file hfile).of_evolves h₁.toEvolves (Set.notMem_empty _) (Set.notMem_empty _)
    exact (ends_putBack_again (h₁.linkless hw) hroot (hfiles file hfile) hsettled₁).imp
      (fun _ _ h => h₁.trans h) fun _ _ h => h
  simp only [restore, hparse, ends_bind, ends_onDisk, ends_layout hfiles, if_neg hplaced, forM_map_part,
    ends_log]
  exact (ends_forM hround (.refl w)).imp (fun _ _ h => h.log _) fun _ _ h => h.elim

theorem chosenDirectory_eq_ok {setting : Json} {path : Path} (h : chosenDirectory setting = .ok path) :
    ∃ directory, path = .parse directory := by
  unfold chosenDirectory at h
  split at h
  · cases h
    exact ⟨_, rfl⟩
  · split at h
    · cases h
      exact ⟨_, rfl⟩
    · cases h
    · cases h

/-- A backup that was made has a backup directory and names the places that the paths mean. -/
theorem saves_of_create {paths : List String} {setting : Json} {backup : Backup} (hw : w.tree.Linkless)
    (hnamed : ∀ name ∈ w.directory.place, IsName name) (hcreate : (create paths setting).run w = .ok backup w₁) :
    ∃ root, (∀ name ∈ root, IsName name) ∧
      backup = ⟨(Path.absolute root).text, texts (savedPlaces w.directory.place paths)⟩ ∧
      Saves root (savedPlaces w.directory.place paths) w w₁ ∧ ∀ path ∈ paths,
        (resolve (.parse path)).run w = .ok (.absolute ((Path.parse path).destination w.directory.place)) w := by
  cases hchosen : chosenDirectory setting with
  | error failure =>
    have hfails : (create paths setting).Ends w (fun _ _ => False) fun _ _ => True := by
      simp [create, hchosen]
    exact (hfails.ok hcreate).elim
  | ok path =>
    obtain ⟨directory, rfl⟩ := chosenDirectory_eq_ok hchosen
    exact ⟨_, Path.isName_of_mem_destination (fun name => Path.isStep_of_mem_parse) hnamed,
      (ends_create hchosen hw hnamed rfl rfl).ok hcreate⟩

namespace Saves

/-- A saved file is not the backup directory, so if it is not inside it is outside. -/
theorem outside (h : Saves root files w w₁) (houtside : ∀ file ∈ files, ¬ Inside root file) :
    ∀ file ∈ files, ¬ root <+: file :=
  fun file hfile hbelow => houtside file hfile ⟨hbelow, (h.sources file hfile).1⟩

/-- A copy is a file, so it is not the backup directory either. -/
theorem inside_copyPlace {file : Location} (h : Saves root files w w₁) (houtside : ∀ file ∈ files, ¬ root <+: file)
    (hfile : file ∈ files) : Inside root (copyPlace root files file) := by
  refine ⟨prefix_copyPlace root files file, fun heq => ?_⟩
  have hcopy := h.copies houtside file hfile
  have hnone : w₁.tree.content? root = none := by rw [FileTree.content?, h.directory]
  have hsome := (h.sources file hfile).2 (houtside file hfile)
  rw [heq, hnone] at hcopy
  simp [← hcopy] at hsome

/-- Restoring gives the files what they held, if the copies are still there. -/
theorem content_of_restore (h : Saves root files w w₁) (hroot : ∀ name ∈ root, IsName name)
    (hfiles : ∀ file ∈ files, ∀ name ∈ file, IsName name) (hnodup : files.Nodup)
    (houtside : ∀ file ∈ files, ¬ root <+: file) (hw₂ : w₂.tree.Linkless)
    (huntouched : ∀ place, Inside root place → w₂.tree.get? place = w₁.tree.get? place)
    (hrestore : (restore ⟨(Path.absolute root).text, texts files⟩).run w₂ = .ok () w₃) {file : Location}
    (hfile : file ∈ files) :
    ∃ octets, w.tree.content? file = some octets ∧ w₃.tree.content? file = some octets := by
  obtain ⟨octets, hoctets⟩ := Option.isSome_iff_exists.1 ((h.sources file hfile).2 (houtside file hfile))
  refine ⟨octets, hoctets, ?_⟩
  have hrestored := ((ends_restore hw₂ hroot hfiles hnodup houtside).ok hrestore).2 file hfile
  have hcopy := FileTree.content?_congr (huntouched _ (h.inside_copyPlace houtside hfile))
  rw [hrestored, hcopy, h.copies houtside file hfile, hoctets]

end Saves

/-- A backup that was made of files outside of the backup directory, and that is restored after any changes
outside of it, gives every file what it held when the backup was made. The saved files are those that the
paths resolve to, however often and in which way they are named. Restoring the backup once more succeeds, and
every place holds what it held before. -/
theorem restore_of_create {paths : List String} {setting : Json} {backup : Backup} (hw : w.tree.Linkless)
    (hnamed : ∀ name ∈ w.directory.place, IsName name) (hcreate : (create paths setting).run w = .ok backup w₁)
    (houtside : ∀ path ∈ paths, ∀ resolved,
      (resolve (.parse path)).run w = .ok resolved w → ¬ Inside backup.place resolved.names)
    (hw₂ : w₂.tree.Linkless)
    (huntouched : ∀ place, Inside backup.place place → w₂.tree.get? place = w₁.tree.get? place)
    (hrestore : (restore backup).run w₂ = .ok () w₃) :
    (∀ file, file ∈ backup.files ↔
      ∃ path ∈ paths, ∃ resolved, (resolve (.parse path)).run w = .ok resolved w ∧ file = resolved.text) ∧
    (∀ file ∈ backup.files, ∃ octets, w.tree.content? (Path.parse file).names = some octets ∧
      w₃.tree.content? (Path.parse file).names = some octets) ∧
    ∃ w₄, (restore backup).run w₃ = .ok () w₄ ∧ ∀ place, w₄.tree.get? place = w₃.tree.get? place := by
  obtain ⟨root, hroot, rfl, hsaves, hresolves⟩ := saves_of_create hw hnamed hcreate
  have hfiles : ∀ file ∈ savedPlaces w.directory.place paths, ∀ name ∈ file, IsName name :=
    isName_of_mem_savedPlaces hnamed
  have hplace {place : Location} (h : ∀ name ∈ place, IsName name) :
      (Path.parse (Path.absolute place).text).names = place := by
    rw [Path.parse_text_absolute fun name hname => (h name hname).isStep]
    rfl
  simp only [place, hplace hroot] at houtside huntouched
  have hout : ∀ file ∈ savedPlaces w.directory.place paths, ¬ root <+: file := by
    refine hsaves.outside fun file hfile => ?_
    obtain ⟨path, hpath, rfl⟩ := mem_savedPlaces.1 hfile
    exact houtside path hpath _ (hresolves path hpath)
  refine ⟨fun file => ?_, fun file hfile => ?_, ?_⟩
  · constructor
    · intro hfile
      obtain ⟨saved, hsaved, rfl⟩ := List.mem_map.1 hfile
      obtain ⟨path, hpath, rfl⟩ := mem_savedPlaces.1 hsaved
      exact ⟨path, hpath, _, hresolves path hpath, rfl⟩
    · rintro ⟨path, hpath, resolved, hrun, rfl⟩
      rw [hresolves path hpath] at hrun
      cases hrun
      exact List.mem_map.2 ⟨_, mem_savedPlaces.2 ⟨path, hpath, rfl⟩, rfl⟩
  · obtain ⟨saved, hsaved, rfl⟩ := List.mem_map.1 hfile
    rw [hplace (hfiles saved hsaved)]
    exact hsaves.content_of_restore hroot hfiles (nodup_eraseDups _) hout hw₂ huntouched hrestore hsaved
  · obtain ⟨hplaced, hlinkless, hsettled⟩ := (ends_restore_settled hw₂ hroot hfiles hout).ok hrestore
    have hsame := ((ends_restore hw₂ hroot hfiles (nodup_eraseDups _) hout).ok hrestore).1
    rw [← hsame.directory] at hplaced
    obtain ⟨_, w₄, hrun, hunchanged⟩ := (ends_restore_again hlinkless hroot hfiles hplaced hsettled).exists_ok
    exact ⟨w₄, hrun, hunchanged.entries⟩

/-- Two files in a directory, one of them deeper. -/
def shelf : Workspace where
  tree := ⟨[(["p"], .directory), (["p", "a"], .file [1]), (["p", "sub"], .directory), (["p", "sub", "b"], .file [2])]⟩
  directory := ⟨["p"], 0⟩

/-- The directory with a backup of both files. -/
def savedShelf : FileTree :=
  ⟨shelf.tree.entries ++ [(["p", ".uic-backup"], .directory), (["p", ".uic-backup", "a"], .file [1]),
    (["p", ".uic-backup", "sub"], .directory), (["p", ".uic-backup", "sub", "b"], .file [2])]⟩

/-- The same after one file was overwritten and the other was removed with its directory. -/
def spoiledShelf : Workspace :=
  { shelf with tree := (savedShelf.erase ["p", "sub"]).set ["p", "a"] (.file [9]) }

theorem restore_of_create_in_shelf :
    ∃ backup w₁ w₃, (create ["a", "sub/b", "/p/./sub/../a"] .null).run shelf = .ok backup w₁ ∧
      backup.files = ["/p/a", "/p/sub/b"] ∧ (restore backup).run spoiledShelf = .ok () w₃ ∧
      spoiledShelf.tree.get? ["p", "sub"] = none ∧ ∀ file ∈ backup.files, ∃ octets,
        shelf.tree.content? (Path.parse file).names = some octets ∧
          w₃.tree.content? (Path.parse file).names = some octets := by
  have hcreate : (create ["a", "sub/b", "/p/./sub/../a"] .null).Ends shelf
      (fun backup w₁ => backup = ⟨"/p/.uic-backup", ["/p/a", "/p/sub/b"]⟩ ∧ w₁.tree = savedShelf)
      fun _ _ => False := by
    decide +kernel
  have hrestore : (restore ⟨"/p/.uic-backup", ["/p/a", "/p/sub/b"]⟩).Ends spoiledShelf (fun _ _ => True)
      fun _ _ => False := by
    decide +kernel
  obtain ⟨_, w₁, hcreated, rfl, htree⟩ := hcreate.exists_ok
  obtain ⟨_, w₃, hrestored, -⟩ := hrestore.exists_ok
  have hw : shelf.tree.Plain := by decide +kernel
  have hw₂ : spoiledShelf.tree.Plain := by decide +kernel
  have houtside : ∀ path ∈ ["a", "sub/b", "/p/./sub/../a"], (resolve (.parse path)).Ends shelf
      (fun resolved _ => ¬ Inside (place ⟨"/p/.uic-backup", ["/p/a", "/p/sub/b"]⟩) resolved.names)
      fun _ _ => True := by
    decide +kernel
  have hplace : place ⟨"/p/.uic-backup", ["/p/a", "/p/sub/b"]⟩ = ["p", ".uic-backup"] := by decide +kernel
  have huntouched (other : Location) (hinside : Inside ["p", ".uic-backup"] other) :
      spoiledShelf.tree.get? other = savedShelf.get? other := by
    obtain ⟨⟨rest, rfl⟩, -⟩ := hinside
    rw [spoiledShelf, FileTree.get?_set_of_ne _ _ (by simp), FileTree.get?_erase _ _ (by simp)]
    simp
  refine ⟨_, w₁, w₃, hcreated, rfl, hrestored, by decide +kernel, ?_⟩
  refine (restore_of_create hw.linkless (by decide +kernel) hcreated
    (fun path hpath resolved hrun => (houtside path hpath).ok hrun) hw₂.linkless (fun other hinside => ?_) hrestored).2.1
  rw [htree]
  exact huntouched other (hplace ▸ hinside)

end TagStamp.Backup
