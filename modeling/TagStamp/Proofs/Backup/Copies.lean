import Mathlib.Data.List.Nodup
import TagStamp.Backup
import TagStamp.Proofs.Workspace.Disk

namespace TagStamp

/-- The written paths of places. -/
def texts (files : List Location) : List String :=
  files.map fun file => (Path.absolute file).text

theorem map_parse_texts {files : List Location} (hfiles : ∀ file ∈ files, ∀ name ∈ file, IsName name) :
    (texts files).map Path.parse = files.map Path.absolute := by
  rw [texts, List.map_map]
  refine List.map_congr_left fun file hfile => ?_
  exact Path.parse_text_absolute fun name hname => (hfiles file hfile name hname).isStep

section EraseDups

variable {α β : Type} [BEq α] [LawfulBEq α] [BEq β] [LawfulBEq β]

theorem eraseDups_concat (xs : List α) (x : α) :
    (xs ++ [x]).eraseDups = if x ∈ xs then xs.eraseDups else xs.eraseDups ++ [x] := by
  rw [List.eraseDups_append]
  by_cases hx : x ∈ xs <;> simp [List.removeAll, List.eraseDups_cons, hx]

theorem nodup_eraseDups (xs : List α) : xs.eraseDups.Nodup := by
  induction xs using List.reverseRecOn with
  | nil => simp
  | append_singleton xs x ih =>
    rw [eraseDups_concat]
    split
    · exact ih
    · next hx =>
      rw [← List.concat_eq_append, List.nodup_concat, List.mem_eraseDups]
      exact ⟨hx, ih⟩

private theorem eraseDups_of_nodup {xs : List α} (h : xs.Nodup) : xs.eraseDups = xs := by
  induction xs with
  | nil => rfl
  | cons x rest ih =>
    rw [List.nodup_cons] at h
    have hrest : rest.filter (fun y => !y == x) = rest := by
      rw [List.filter_eq_self]
      intro y hy
      simpa using fun heq : y = x => h.1 (heq ▸ hy)
    rw [List.eraseDups_cons, hrest, ih h.2]

/-- Names that tell all items apart have the same duplicates. -/
theorem eraseDups_map {f : α → β} {xs : List α}
    (hf : ∀ x ∈ xs, ∀ y ∈ xs, f x = f y → x = y) : (xs.map f).eraseDups = xs.eraseDups.map f := by
  induction xs using List.reverseRecOn with
  | nil => rfl
  | append_singleton xs x ih =>
    have hfront : ∀ y ∈ xs, y ∈ xs ++ [x] := fun y hy => List.mem_append_left _ hy
    have hmem : f x ∈ xs.map f ↔ x ∈ xs := by
      refine ⟨fun h => ?_, List.mem_map_of_mem⟩
      obtain ⟨y, hy, heq⟩ := List.mem_map.1 h
      rwa [← hf y (hfront y hy) x (by simp) heq]
    have hrest := ih fun y hy z hz => hf y (hfront y hy) z (hfront z hz)
    rw [List.map_append, List.map_singleton, eraseDups_concat, eraseDups_concat, hrest]
    simp only [hmem]
    split
    · rfl
    · rw [List.map_append, List.map_singleton]

theorem eraseDups_filter (p : α → Bool) (xs : List α) : (xs.filter p).eraseDups = xs.eraseDups.filter p := by
  induction xs using List.reverseRecOn with
  | nil => rfl
  | append_singleton xs x ih =>
    rw [List.filter_append, eraseDups_concat]
    by_cases hx : p x = true
    · rw [List.filter_cons_of_pos hx, List.filter_nil, eraseDups_concat, ih]
      simp only [List.mem_filter, hx, and_true]
      split
      · rfl
      · rw [List.filter_append, List.filter_cons_of_pos hx, List.filter_nil]
    · rw [List.filter_cons_of_neg hx, List.filter_nil, List.append_nil, ih]
      split
      · rfl
      · rw [List.filter_append, List.filter_cons_of_neg hx, List.filter_nil, List.append_nil]

end EraseDups

namespace Backup

/-- The deepest directory above the given files. -/
def base (files : List Location) : Location :=
  (commonAncestor (.absolute []) (files.map Path.absolute)).names

/-- Where the copy of a file is. -/
def copyPlace (root : Location) (files : List Location) (file : Location) : Location :=
  root ++ file.drop (base files).length

/-- A file with its path below the common ancestor. -/
def part (files : List Location) (file : Location) : Path × Path :=
  (.absolute file, ⟨.relative, file.drop (base files).length⟩)

open TagStamp.Action

variable {w : Workspace} {root file : Location} {files : List Location}

/-- What two lists both begin with, their common names begin with, and the other way round. -/
theorem prefix_commonNames_iff {start a b : List String} : start <+: commonNames a b ↔ start <+: a ∧ start <+: b := by
  induction a generalizing start b with
  | nil =>
    rw [commonNames, List.prefix_nil, and_iff_left_of_imp]
    · rintro rfl
      exact List.nil_prefix
    · simp
  | cons name rest ih =>
    cases b with
    | nil =>
      rw [commonNames, List.prefix_nil, and_iff_right_of_imp]
      · rintro rfl
        exact List.nil_prefix
      · simp
    | cons other others =>
      cases start with
      | nil => simp
      | cons first start =>
        rw [commonNames, List.cons_prefix_cons, List.cons_prefix_cons]
        split
        · next heq => rw [List.cons_prefix_cons, ih, heq, and_and_left]
        · next hne =>
          rw [List.prefix_nil]
          constructor
          · intro h
            cases h
          · intro ⟨hname, hother⟩
            exact absurd (hname.1.symm.trans hother.1) hne

private theorem prefix_foldl_commonNames_iff {start first : List String} {others : List Path} :
    start <+: others.foldl (fun names q => commonNames names q.names) first ↔
      start <+: first ∧ ∀ q ∈ others, start <+: q.names := by
  induction others generalizing first with
  | nil => simp
  | cons q rest ih => rw [List.foldl_cons, ih, prefix_commonNames_iff, List.forall_mem_cons, and_assoc]

section Ancestor

variable {anchor : Anchor} {paths : List Path}

/-- Two or more paths from one root have an ancestor below the same root, with the names that all begin with. -/
theorem commonAncestor_of_anchor (habsolute : anchor ≠ .relative) (directory : Path) (hcount : 2 ≤ paths.length)
    (hpaths : ∀ path ∈ paths, path.anchor = anchor) :
    (commonAncestor directory paths).anchor = anchor ∧
      ∀ names, names <+: (commonAncestor directory paths).names ↔ ∀ path ∈ paths, names <+: path.names := by
  match paths with
  | first :: second :: rest =>
    rw [List.forall_mem_cons] at hpaths
    have hsame : ¬ (((second :: rest).any fun path => decide (path.anchor ≠ first.anchor)) = true ∨
        first.anchor = .relative ∧ (second :: rest).foldl (fun names q => commonNames names q.names) first.names =
          []) := by
      rw [hpaths.1]
      rintro (hany | ⟨hrelative, -⟩)
      · obtain ⟨path, hpath, hne⟩ := List.any_eq_true.1 hany
        exact of_decide_eq_true hne (hpaths.2 path hpath)
      · exact habsolute hrelative
    simp only [commonAncestor, if_neg hsame]
    refine ⟨hpaths.1, fun names => ?_⟩
    rw [prefix_foldl_commonNames_iff, List.forall_mem_cons (a := first)]

/-- The common ancestor is above all paths, a single path included. -/
theorem commonAncestor_above (habsolute : anchor ≠ .relative) (directory : Path)
    (hpaths : ∀ path ∈ paths, path.anchor = anchor) {path : Path} (hpath : path ∈ paths) :
    path.anchor = (commonAncestor directory paths).anchor ∧ (commonAncestor directory paths).names <+: path.names := by
  by_cases hcount : 2 ≤ paths.length
  · obtain ⟨hanchor, hnames⟩ := commonAncestor_of_anchor habsolute directory hcount hpaths
    exact ⟨(hpaths path hpath).trans hanchor.symm, (hnames _).1 (List.prefix_refl _) path hpath⟩
  · have hpos := List.length_pos_of_mem hpath
    obtain ⟨only, rfl⟩ := List.length_eq_one_iff.1 (by omega : paths.length = 1)
    rw [List.mem_singleton.1 hpath]
    exact ⟨rfl, List.dropLast_prefix _⟩

/-- The common ancestor of files is above each of them. -/
theorem base_prefix_of_mem (hfile : file ∈ files) : base files <+: file := by
  have hpaths : ∀ path ∈ files.map Path.absolute, path.anchor = .root := List.forall_mem_map.2 fun _ _ => rfl
  exact (commonAncestor_above (by decide) (.absolute []) hpaths (List.mem_map_of_mem hfile)).2

/-- Only for no files at all the working directory is asked for. -/
theorem ancestor_of_ne_nil {given : List String} (hgiven : given ≠ []) :
    ancestor given = pure (commonAncestor (.absolute []) (given.map Path.parse)) := by
  obtain ⟨first, rest, rfl⟩ := List.exists_cons_of_ne_nil hgiven
  rfl

/-- What leads from a directory to a path below it. -/
def remainder (directory path : Path) : Path :=
  ⟨.relative, path.names.drop directory.names.length⟩

/-- Paths below a directory are found there. -/
theorem mapM_below {directory : Path}
    (hbelow : ∀ path ∈ paths, path.anchor = directory.anchor ∧ directory.names <+: path.names) :
    (paths.mapM fun path => return (path, ← below directory path)) =
      (pure (paths.map fun path => (path, remainder directory path)) : Action (List (Path × Path))) := by
  induction paths with
  | nil => rfl
  | cons path rest ih =>
    rw [List.forall_mem_cons] at hbelow
    rw [List.mapM_cons, ih hbelow.2, below, Path.relativeTo?, if_pos hbelow.1]
    rfl

/-- Each file is found below the common ancestor. -/
theorem layout_eq {given : List String} (habsolute : anchor ≠ .relative) (hgiven : given ≠ [])
    (hpaths : ∀ path ∈ given.map Path.parse, path.anchor = anchor) :
    layout given = pure ((given.map Path.parse).map fun path =>
      (path, remainder (commonAncestor (.absolute []) (given.map Path.parse)) path)) := by
  rw [layout, ancestor_of_ne_nil hgiven, pure_bind,
    mapM_below fun path hpath => commonAncestor_above habsolute (.absolute []) hpaths hpath]

end Ancestor

/-- Each file is found below the common ancestor. Only if there are no files the working directory is asked
for. -/
theorem ends_layout (hfiles : ∀ file ∈ files, ∀ name ∈ file, IsName name)
    {done : List (Path × Path) → Workspace → Prop} {failed : Failure → Workspace → Prop} :
    (layout (texts files)).Ends w done failed ↔
      if files = [] ∧ w.directory.isLost then failed (.disk .unplaced) w else done (files.map (part files)) w := by
  by_cases hnone : files = []
  · subst hnone
    simp only [layout, texts, ancestor, List.map_nil, ends_bind, ends_workingDirectory, ends_pure, true_and]
    split <;> rfl
  have hparsed := map_parse_texts hfiles
  have hpaths : ∀ path ∈ (texts files).map Path.parse, path.anchor = .root := by
    rw [hparsed]
    exact List.forall_mem_map.2 fun _ _ => rfl
  have hsome : texts files ≠ [] := fun hempty => hnone (List.map_eq_nil_iff.1 hempty)
  rw [layout_eq (by decide) hsome hpaths, hparsed, ends_pure, if_neg fun h => hnone h.1, List.map_map]
  rfl

/-- A copy that was made with the directories that lead to it, and could be made again. -/
structure Settled (source target : Location) (w : Workspace) : Prop where
  parent : w.Opens target.dropLast
  copied : w.Copied source target

/-- A copy, with the directories that lead to it. Only the copy is touched. -/
theorem ends_copyFile_parent {source target : Location} (hw : w.tree.Linkless)
    (hsource : ∀ name ∈ source, IsName name) (htarget : ∀ name ∈ target, IsName name) :
    (do
      makeDirectories (Path.absolute target).parent
      copyFile (.absolute source) (.absolute target)).Ends w
      (fun _ w' => w.Evolves {target} w' ∧ Settled source target w')
      fun failure w' => failure.isDirect ∧ w.Evolves {target} w' := by
  have hparent : ∀ name ∈ target.dropLast, IsName name :=
    fun name hname => htarget name (List.mem_of_mem_dropLast hname)
  rw [ends_bind]
  refine (ends_makeDirectories hw hparent).imp (fun _ w₁ h₁ => ?_)
    fun _ _ h => ⟨h.1, h.2.mono (Set.empty_subset _)⟩
  have hfirst := h₁.evolves.mono (Set.empty_subset {target})
  exact (ends_copyFile (h₁.evolves.linkless hw) hsource htarget).imp
    (fun _ w₂ h₂ => ⟨hfirst.trans h₂.1, h₂.1.opens h₁.toOpens, h₂.2⟩) fun _ _ h => ⟨h.1, hfirst.trans h.2⟩

/-- The copy has what its source had, because only the copy was touched. -/
theorem Settled.content {source target : Location} {w' : Workspace} (h : Settled source target w')
    (hevolves : w.Evolves {target} w') :
    (w.tree.content? source).isSome ∧ w'.tree.content? target = w.tree.content? source := by
  obtain ⟨octets, hsource, htarget⟩ := h.copied.content
  rw [← hevolves.content source h.copied.apart, hsource, htarget]
  exact ⟨rfl, rfl⟩

theorem isName_of_mem_copyPlace (hroot : ∀ name ∈ root, IsName name) (hfile : ∀ name ∈ file, IsName name) :
    ∀ name ∈ copyPlace root files file, IsName name := by
  intro name hname
  rw [copyPlace, List.mem_append] at hname
  obtain hname | hname := hname
  · exact hroot name hname
  · exact hfile name (List.mem_of_mem_drop hname)

/-- Different files have different copies. -/
theorem copyPlace_inj {other : Location} (hfile : file ∈ files) (hother : other ∈ files)
    (h : copyPlace root files file = copyPlace root files other) : file = other := by
  rw [copyPlace, copyPlace, List.append_cancel_left_eq] at h
  rw [← List.prefix_iff_eq_append.1 (base_prefix_of_mem hfile), h,
    List.prefix_iff_eq_append.1 (base_prefix_of_mem hother)]

theorem prefix_copyPlace (root : Location) (files : List Location) (file : Location) :
    root <+: copyPlace root files file :=
  List.prefix_append _ _

/-- Saving a file touches its copy only. -/
theorem ends_save (hw : w.tree.Linkless) (hroot : ∀ name ∈ root, IsName name)
    (hfile : ∀ name ∈ file, IsName name) :
    (save (.absolute root) (part files file)).Ends w
      (fun _ w' => w.Evolves {copyPlace root files file} w' ∧ Settled file (copyPlace root files file) w')
      fun failure w' => failure.isDirect ∧ w.Evolves {copyPlace root files file} w' :=
  ends_copyFile_parent hw hfile (isName_of_mem_copyPlace hroot hfile)

/-- Putting a file back touches the file only. -/
theorem ends_putBack (hw : w.tree.Linkless) (hroot : ∀ name ∈ root, IsName name)
    (hfile : ∀ name ∈ file, IsName name) :
    (putBack (.absolute root) (part files file)).Ends w
      (fun _ w' => w.Evolves {file} w' ∧ Settled (copyPlace root files file) file w')
      fun failure w' => failure.isDirect ∧ w.Evolves {file} w' :=
  ends_copyFile_parent hw (isName_of_mem_copyPlace hroot hfile) hfile

/-- A place below the given one. -/
def Inside (root place : Location) : Prop :=
  root <+: place ∧ place ≠ root

instance (root place : Location) : Decidable (Inside root place) :=
  inferInstanceAs (Decidable (root <+: place ∧ place ≠ root))

/-- What a finished backup gives: the backup directory is there and none of the saved files, those outside of
it are files that are untouched, and if all are outside, their copies hold what they hold. -/
structure Saves (root : Location) (files : List Location) (w w' : Workspace) : Prop extends w'.Opens root where
  evolves : w.Evolves {place | Inside root place} w'
  sources : ∀ file ∈ files, file ≠ root ∧ (¬ root <+: file → (w.tree.content? file).isSome)
  copies : (∀ file ∈ files, ¬ root <+: file) → ∀ file ∈ files,
    w'.tree.content? (copyPlace root files file) = w.tree.content? file

theorem forM_map_part (f : Path × Path → Action Unit) (files' : List Location) :
    (files'.map (part files)).forM f = files'.forM fun file => f (part files file) :=
  List.forM_map

/-- What is saved is no directory, and it stays as it is unless it is in the backup directory. -/
theorem ends_forM_save_sources (hw : w.tree.Linkless) (hroot : ∀ name ∈ root, IsName name)
    (hfiles : ∀ file ∈ files, ∀ name ∈ file, IsName name) (hdirectory : w.tree.get? root = some .directory) :
    (files.forM fun file => save (.absolute root) (part files file)).Ends w
      (fun _ w' => w.Evolves {place | root <+: place} w' ∧
        ∀ file ∈ files, file ≠ root ∧ (¬ root <+: file → (w.tree.content? file).isSome))
      fun failure w' => failure.isDirect ∧ w.Evolves {place | root <+: place} w' := by
  have hround (file : Location) (hfile : file ∈ files) (w₁ : Workspace)
      (h₁ : w.Evolves {place | root <+: place} w₁) :
      (save (.absolute root) (part files file)).Ends w₁
        (fun _ w' => w.Evolves {place | root <+: place} w' ∧
          (file ≠ root ∧ (¬ root <+: file → (w.tree.content? file).isSome)) ∧ ∀ other ∈ files,
            (other ≠ root ∧ (¬ root <+: other → (w.tree.content? other).isSome)) →
            other ≠ root ∧ (¬ root <+: other → (w.tree.content? other).isSome))
        fun failure w' => failure.isDirect ∧ w.Evolves {place | root <+: place} w' := by
    have hsub : {copyPlace root files file} ⊆ {place | root <+: place} := by
      rintro _ rfl
      exact prefix_copyPlace root files file
    refine (ends_save (h₁.linkless hw) hroot (hfiles file hfile)).imp
      (fun _ w₂ ⟨h₂, hsettled⟩ => ⟨h₁.trans (h₂.mono hsub), ⟨?_, ?_⟩, fun _ _ h => h⟩)
      fun _ _ h => ⟨h.1, h₁.trans (h.2.mono hsub)⟩
    · rintro rfl
      have hnone : w₁.tree.content? file = none := by rw [FileTree.content?, h₁.directories file hdirectory]
      simpa [hnone] using (hsettled.content h₂).1
    · intro houtside
      rw [← h₁.content file houtside]
      exact (hsettled.content h₂).1
  exact (ends_forM_facts hround (List.Subset.refl files) (.refl _ w)).imp (fun _ _ h => ⟨h.1, h.2.1⟩) fun _ _ h => h

private theorem ends_forM_save (hw : w.tree.Linkless) (hroot : ∀ name ∈ root, IsName name)
    (hfiles : ∀ file ∈ files, ∀ name ∈ file, IsName name) (hnodup : files.Nodup)
    (houtside : ∀ file ∈ files, ¬ root <+: file) :
    (files.forM fun file => save (.absolute root) (part files file)).Ends w
      (fun _ w' => ∀ file ∈ files, w'.tree.content? (copyPlace root files file) = w.tree.content? file)
      fun _ _ => True := by
  have hapart : files.Pairwise fun file other => copyPlace root files file ≠ copyPlace root files other :=
    hnodup.imp_of_mem fun hfile hother hne h => hne (copyPlace_inj hfile hother h)
  have hround (file : Location) (hfile : file ∈ files) (w : Workspace) (hw : w.tree.Linkless) :
      (save (.absolute root) (part files file)).Ends w
        (fun _ w' => w.Evolves {copyPlace root files file} w' ∧
          w'.tree.content? (copyPlace root files file) = w.tree.content? file)
        fun failure w' => failure.isDirect ∧ w.Evolves {copyPlace root files file} w' :=
    (ends_save hw hroot (hfiles file hfile)).imp (fun _ w' h => ⟨h.1, (h.2.content h.1).2⟩) fun _ _ h => h
  refine (ends_forM_files hapart ?_ hround hw).imp (fun _ w' h => h.2) fun _ _ _ => trivial
  intro file hfile other hother w w' h
  refine h.content file fun heq => houtside file hfile ?_
  rw [Set.mem_singleton_iff.1 heq]
  exact prefix_copyPlace root files other

private theorem ends_forM_putBack (hw : w.tree.Linkless) (hroot : ∀ name ∈ root, IsName name)
    (hfiles : ∀ file ∈ files, ∀ name ∈ file, IsName name) (hnodup : files.Nodup)
    (houtside : ∀ file ∈ files, ¬ root <+: file) :
    (files.forM fun file => putBack (.absolute root) (part files file)).Ends w
      (fun _ w' => w.Evolves {place | place ∈ files} w' ∧ ∀ file ∈ files,
        w'.tree.content? file = w.tree.content? (copyPlace root files file))
      fun failure w' => failure.isDirect ∧ w.Evolves {place | place ∈ files} w' := by
  have hsub : {place | ∃ file ∈ files, place = file} ⊆ {place | place ∈ files} := by
    rintro _ ⟨file, hfile, rfl⟩
    exact hfile
  have hround (file : Location) (hfile : file ∈ files) (w : Workspace) (hw : w.tree.Linkless) :
      (putBack (.absolute root) (part files file)).Ends w
        (fun _ w' => w.Evolves {file} w' ∧
          w'.tree.content? file = w.tree.content? (copyPlace root files file))
        fun failure w' => failure.isDirect ∧ w.Evolves {file} w' :=
    (ends_putBack hw hroot (hfiles file hfile)).imp (fun _ w' h => ⟨h.1, (h.2.content h.1).2⟩) fun _ _ h => h
  refine (ends_forM_files hnodup ?_ hround hw).imp (fun _ w' h => ⟨h.1.mono hsub, h.2⟩)
    fun _ _ h => ⟨h.1, h.2.mono hsub⟩
  intro file hfile other hother w w' h
  refine h.content _ fun heq => houtside other hother ?_
  rw [← Set.mem_singleton_iff.1 heq]
  exact prefix_copyPlace root files file

/-- The places that paths mean from a directory, each of them once. -/
def savedPlaces (directory : Location) (paths : List String) : List Location :=
  (paths.map fun path => (Path.parse path).destination directory).eraseDups

theorem mem_savedPlaces {directory : Location} {paths : List String} :
    file ∈ savedPlaces directory paths ↔ ∃ path ∈ paths, (Path.parse path).destination directory = file := by
  rw [savedPlaces, List.mem_eraseDups, List.mem_map]

theorem isName_of_mem_savedPlaces {directory : Location} (hdirectory : ∀ name ∈ directory, IsName name)
    {paths : List String} : ∀ file ∈ savedPlaces directory paths, ∀ name ∈ file, IsName name := by
  intro file hfile
  obtain ⟨path, -, rfl⟩ := mem_savedPlaces.1 hfile
  exact Path.isName_of_mem_destination (fun name => Path.isStep_of_mem_parse) hdirectory

/-- Places that are written out are meant by what is written. -/
theorem savedPlaces_texts (hfiles : ∀ file ∈ files, ∀ name ∈ file, IsName name) (hnodup : files.Nodup)
    (directory : Location) : savedPlaces directory (texts files) = files := by
  have hplaces : (texts files).map (fun path => (Path.parse path).destination directory) = files := by
    have hparse := congrArg (List.map fun path : Path => path.destination directory) (map_parse_texts hfiles)
    rw [List.map_map, List.map_map] at hparse
    refine hparse.trans ((List.map_congr_left fun file hfile => ?_).trans (List.map_id files))
    exact Path.destination_absolute (hfiles file hfile)
  rw [savedPlaces, hplaces, eraseDups_of_nodup hnodup]

/-- Paths with the same text mean the same place. -/
theorem eraseDups_texts {directory : Location} (hdirectory : ∀ name ∈ directory, IsName name) (paths : List String) :
    (texts (paths.map fun path => (Path.parse path).destination directory)).eraseDups =
      texts (savedPlaces directory paths) := by
  refine eraseDups_map fun file hfile other hother heq => ?_
  have hstep {place : Location} (h : place ∈ paths.map fun path => (Path.parse path).destination directory) :
      ∀ name ∈ place, IsStep name := by
    rw [← List.mem_eraseDups] at h
    exact fun name hname => (isName_of_mem_savedPlaces hdirectory place h name hname).isStep
  exact Path.text_absolute_inj (hstep hfile) (hstep hother) heq

/-- Every path is resolved to the place that it means. -/
theorem ends_mapM_resolve (hw : w.tree.Linkless) (paths : List String) :
    (paths.mapM fun path => resolve (.parse path)).Ends w
      (fun resolved w' => resolved = paths.map (fun path => .absolute ((Path.parse path).destination w.directory.place)) ∧
        (∀ path ∈ paths,
          (resolve (.parse path)).run w = .ok (.absolute ((Path.parse path).destination w.directory.place)) w) ∧
        w' = w)
      fun failure w' => failure.isDirect ∧ w' = w := by
  have hround (path : String) (_ : path ∈ paths) (w₁ : Workspace) (h₁ : w₁ = w) :
      (resolve (.parse path)).Ends w₁
        (fun q w' => (q = .absolute ((Path.parse path).destination w.directory.place) ∧
          (resolve (.parse path)).run w = .ok q w) ∧ w' = w)
        fun failure w' => failure.isDirect ∧ w' = w := by
    subst h₁
    refine (ends_resolve hw fun name => Path.isStep_of_mem_parse).imp_run ?_ fun _ _ _ h => h
    rintro q w' hrun ⟨hq, -, rfl⟩
    exact ⟨⟨hq, hrun⟩, rfl⟩
  refine (ends_mapM hround rfl).imp ?_ fun _ _ h => h
  rintro resolved w ⟨hresolved, rfl⟩
  clear hround
  induction hresolved with
  | nil => simp
  | cons h _ ih =>
    obtain ⟨rfl, hrun⟩ := h
    exact ⟨by rw [ih.1]; rfl, List.forall_mem_cons.2 ⟨hrun, ih.2.1⟩, rfl⟩

/-- All files are saved below the backup directory. -/
theorem ends_fill (hw : w.tree.Linkless) (hroot : ∀ name ∈ root, IsName name)
    (hfiles : ∀ file ∈ files, ∀ name ∈ file, IsName name) (hnodup : files.Nodup) :
    (do
      makeDirectories (.absolute root)
      (← layout (texts files)).forM (save (.absolute root))).Ends w (fun _ w' => Saves root files w w')
      fun failure w' => failure.isDirect ∧ w.Evolves {place | Inside root place} w' := by
  simp only [ends_bind, ends_layout hfiles]
  refine (ends_makeDirectories hw hroot).imp (fun _ w₁ h₁ => ?_)
    fun _ _ h => ⟨h.1, h.2.mono (Set.empty_subset _)⟩
  have hfirst := h₁.evolves.mono (Set.empty_subset {place | Inside root place})
  have hcontent (place : Location) : w₁.tree.content? place = w.tree.content? place :=
    h₁.evolves.content place (Set.notMem_empty place)
  -- from here on the backup directory is one, so no copy takes its place
  have hinside {w₂ : Workspace} (h : w₁.Evolves {place | root <+: place} w₂) :
      w.Evolves {place | Inside root place} w₂ :=
    hfirst.trans (h.diff_directory h₁.directory)
  split
  · exact ⟨rfl, hfirst⟩
  rw [forM_map_part]
  have hsources := ends_forM_save_sources (hfirst.linkless hw) hroot hfiles h₁.directory
  simp only [hcontent] at hsources
  by_cases houtside : ∀ file ∈ files, ¬ root <+: file
  · refine (hsources.and (ends_forM_save (hfirst.linkless hw) hroot hfiles hnodup houtside)).imp ?_
      fun _ _ h => ⟨h.1.1, hinside h.1.2⟩
    rintro _ w₂ ⟨⟨hsteps, hfacts⟩, hcopies⟩
    simp only [hcontent] at hcopies
    exact ⟨hsteps.opens h₁.toOpens, hinside hsteps, hfacts, fun _ => hcopies⟩
  · refine hsources.imp ?_ fun _ _ h => ⟨h.1, hinside h.2⟩
    rintro _ w₂ ⟨hsteps, hfacts⟩
    exact ⟨hsteps.opens h₁.toOpens, hinside hsteps, hfacts, fun h => absurd h houtside⟩

/-- A backup that is made saves the files that the paths mean; one that is not made leaves everything outside
the backup directory as it was. -/
theorem ends_create {directory : String} {setting : Json} {paths : List String}
    (hchosen : chosenDirectory setting = .ok (.parse directory)) (hw : w.tree.Linkless)
    (hnamed : ∀ name ∈ w.directory.place, IsName name)
    (hroot : root = (Path.parse directory).destination w.directory.place)
    (hfiles : files = savedPlaces w.directory.place paths) :
    (create paths setting).Ends w
      (fun backup w' => backup = ⟨(Path.absolute root).text, texts files⟩ ∧ Saves root files w w' ∧
        ∀ path ∈ paths,
          (resolve (.parse path)).run w = .ok (.absolute ((Path.parse path).destination w.directory.place)) w)
      fun failure w' => (failure.isDirect ∨ ∃ error, failure = .backupNotMade (Path.absolute root).text error) ∧
        w.Evolves {place | Inside root place} w' := by
  have hsteps : ∀ name ∈ (Path.parse directory).names, IsStep name := fun name => Path.isStep_of_mem_parse
  have hnames : ∀ name ∈ root, IsName name := hroot ▸ Path.isName_of_mem_destination hsteps hnamed
  have htexts (paths : List String) : (paths.map fun path =>
      Path.absolute ((Path.parse path).destination w.directory.place)).map Path.text =
      texts (paths.map fun path => (Path.parse path).destination w.directory.place) := by
    simp [texts]
  simp only [create, ends_bind, ends_ofExcept, hchosen]
  refine (ends_resolve hw hsteps).imp ?_ (by rintro _ _ ⟨h, rfl⟩; exact ⟨.inl h, .refl _ _⟩)
  rintro _ w ⟨rfl, -, rfl⟩
  rw [← hroot]
  refine (ends_mapM_resolve hw paths).imp ?_ (by rintro _ _ ⟨h, rfl⟩; exact ⟨.inl h, .refl _ _⟩)
  rintro _ w ⟨rfl, hresolves, rfl⟩
  rw [htexts, eraseDups_texts hnamed, ← hfiles]
  refine (ends_fill hw hnames (hfiles ▸ isName_of_mem_savedPlaces hnamed)
    (hfiles ▸ nodup_eraseDups _)).rethrow.imp (fun _ w₁ h₁ => ?_) fun _ _ h => h
  simp only [ends_log, ends_pure, true_and]
  exact ⟨⟨⟨h₁.leads, h₁.directory, h₁.readable, h₁.visible⟩, h₁.evolves.log _, h₁.sources, h₁.copies⟩, hresolves⟩

/-- Restoring a backup touches the saved files only, and gives each of them the content of its copy. -/
theorem ends_restore (hw : w.tree.Linkless) (hroot : ∀ name ∈ root, IsName name)
    (hfiles : ∀ file ∈ files, ∀ name ∈ file, IsName name) (hnodup : files.Nodup)
    (houtside : ∀ file ∈ files, ¬ root <+: file) :
    (restore ⟨(Path.absolute root).text, texts files⟩).Ends w
      (fun _ w' => w.Evolves {place | place ∈ files} w' ∧ ∀ file ∈ files,
        w'.tree.content? file = w.tree.content? (copyPlace root files file))
      fun failure w' =>
        (failure.isDirect ∨ ∃ error, failure = .backupNotRestored (Path.absolute root).text error) ∧
          w.Evolves {place | place ∈ files} w' := by
  have hparts : (do (← layout (texts files)).forM (putBack (.absolute root))).Ends w
      (fun _ w' => w.Evolves {place | place ∈ files} w' ∧ ∀ file ∈ files,
        w'.tree.content? file = w.tree.content? (copyPlace root files file))
      fun failure w' => failure.isDirect ∧ w.Evolves {place | place ∈ files} w' := by
    rw [ends_bind, ends_layout hfiles]
    split
    · exact ⟨rfl, .refl _ w⟩
    rw [forM_map_part]
    exact ends_forM_putBack hw hroot hfiles hnodup houtside
  have hparse : Path.parse (Path.absolute root).text = .absolute root :=
    Path.parse_text_absolute fun name hname => (hroot name hname).isStep
  simp only [restore, hparse, ends_bind]
  exact hparts.rethrow.imp (fun _ w₁ h₁ => ⟨h₁.1.log _, h₁.2⟩) fun _ _ h => h

/-- A backup is removed with everything in its directory, whatever it was before the backup was made. -/
theorem ends_discard (hw : w.tree.Linkless) (hroot : ∀ name ∈ root, IsName name) (hleads : w.tree.Leads root)
    (hdirectory : w.tree.get? root = some .directory) (hnul : '\x00' ∉ (Path.absolute root).text.toList)
    (names : List String) :
    (discard ⟨(Path.absolute root).text, names⟩).Ends w (fun _ w' => w.Pruned root w') fun _ _ => False := by
  have hparse : Path.parse (Path.absolute root).text = .absolute root :=
    Path.parse_text_absolute fun name hname => (hroot name hname).isStep
  simp only [discard, hparse, ends_bind]
  refine (ends_probe_of_leads hw hroot hleads hdirectory hnul).imp ?_ fun _ _ h => h
  rintro entry _ ⟨rfl, rfl⟩
  simp only [Option.isNone_some, Bool.false_eq_true, if_false, ends_onDisk, ends_bind]
  refine (ends_removeTree hw hroot hleads hdirectory hnul).imp (fun _ _ h => h.log _) ?_
  rintro _ w₁ ⟨⟨error, rfl⟩, h₁⟩
  simp only
  split
  · exact h₁
  · exact h₁.log _

end Backup

end TagStamp
