import TagStamp.Proofs.Backup.Copies

namespace TagStamp

/-- The segments of a path. Where it starts is the first one, unless it is relative. -/
def Path.segments (p : Path) : List String :=
  if p.anchor = .relative then p.names else p.anchor.text :: p.names

theorem Path.segments_of_anchor {p : Path} {anchor : Anchor} (habsolute : anchor ≠ .relative) (hp : p.anchor = anchor) :
    p.segments = anchor.text :: p.names := by
  rw [segments, hp, if_neg habsolute]

namespace Backup

open TagStamp.Action

/-- An absolute path, written as it is read back: with single slashes, and without single dots. -/
@[mk_iff]
structure Normal (file : String) : Prop where
  absolute : (Path.parse file).anchor ≠ .relative
  written : (Path.parse file).text = file

instance (file : String) : Decidable (Normal file) :=
  decidable_of_iff _ (normal_iff file).symm

/-- The paths start at one root. A root is written with one slash or with two. -/
def SharesRoot (paths : List Path) : Prop :=
  ∃ anchor, ∀ path ∈ paths, path.anchor = anchor

variable {anchor : Anchor} {files : List String} {paths : List Path}

section Ancestor

/-- The segments of the common ancestor are the longest list that the segments of all paths begin with. -/
theorem prefix_segments_commonAncestor_iff (habsolute : anchor ≠ .relative) (directory : Path)
    (hcount : 2 ≤ paths.length) (hpaths : ∀ path ∈ paths, path.anchor = anchor) (segments : List String) :
    segments <+: (commonAncestor directory paths).segments ↔ ∀ path ∈ paths, segments <+: path.segments := by
  obtain ⟨hanchor, hnames⟩ := commonAncestor_of_anchor habsolute directory hcount hpaths
  have hsegments : ∀ path ∈ paths, path.segments = anchor.text :: path.names :=
    fun path hpath => Path.segments_of_anchor habsolute (hpaths path hpath)
  rw [Path.segments_of_anchor habsolute hanchor]
  cases segments with
  | nil => simp
  | cons segment names =>
    rw [List.cons_prefix_cons, hnames]
    constructor
    · intro ⟨hsegment, hall⟩ path hpath
      rw [hsegments path hpath, List.cons_prefix_cons]
      exact ⟨hsegment, hall path hpath⟩
    · intro hall
      have hpart (path : Path) (hpath : path ∈ paths) : segment = anchor.text ∧ names <+: path.names := by
        have hprefix := hall path hpath
        rwa [hsegments path hpath, List.cons_prefix_cons] at hprefix
      obtain ⟨path, hpath⟩ := List.exists_mem_of_length_pos (by omega : 0 < paths.length)
      exact ⟨(hpart path hpath).1, fun other hother => (hpart other hother).2⟩

/-- Paths that start at different roots have the root with one slash for their common ancestor. -/
theorem commonAncestor_of_not_sharesRoot (directory : Path) (hmixed : ¬ SharesRoot paths) :
    commonAncestor directory paths = .absolute [] := by
  cases paths with
  | nil => exact absurd ⟨.root, by simp⟩ hmixed
  | cons first rest =>
    cases rest with
    | nil => exact absurd ⟨first.anchor, by simp⟩ hmixed
    | cons second rest =>
      have hany : (second :: rest).any fun path => decide (path.anchor ≠ first.anchor) := by
        rw [List.any_eq_true]
        by_contra hnone
        refine hmixed ⟨first.anchor, List.forall_mem_cons.2 ⟨rfl, fun path hpath => ?_⟩⟩
        by_contra hne
        exact hnone ⟨path, hpath, decide_eq_true hne⟩
      rw [commonAncestor, if_pos (.inl hany)]
      exact List.cons_ne_nil second rest

/-- Absolute paths that do not start at one root start at both. -/
theorem exists_mem_anchor (habsolute : ∀ path ∈ paths, path.anchor ≠ .relative) (hmixed : ¬ SharesRoot paths)
    (hanchor : anchor ≠ .relative) : ∃ path ∈ paths, path.anchor = anchor := by
  by_contra hnone
  refine hmixed ⟨if anchor = .root then .doubleRoot else .root, fun path hpath => ?_⟩
  have hrelative := habsolute path hpath
  have hother : path.anchor ≠ anchor := fun h => hnone ⟨path, hpath, h⟩
  generalize path.anchor = other at hrelative hother ⊢
  cases other <;> cases anchor <;> simp at hrelative hother hanchor ⊢

theorem SharesRoot.exists_absolute (h : SharesRoot paths) (habsolute : ∀ path ∈ paths, path.anchor ≠ .relative)
    (hsome : paths ≠ []) : ∃ anchor, anchor ≠ .relative ∧ ∀ path ∈ paths, path.anchor = anchor := by
  obtain ⟨anchor, hpaths⟩ := h
  obtain ⟨path, hpath⟩ := List.exists_mem_of_ne_nil paths hsome
  exact ⟨anchor, hpaths path hpath ▸ habsolute path hpath, hpaths⟩

/-- The common ancestor is above all of the paths exactly if they start at one root. -/
theorem segments_commonAncestor_prefix_iff (habsolute : ∀ path ∈ paths, path.anchor ≠ .relative) (directory : Path)
    (hcount : 2 ≤ paths.length) :
    (∀ path ∈ paths, (commonAncestor directory paths).segments <+: path.segments) ↔ SharesRoot paths := by
  constructor
  · intro habove
    by_contra hmixed
    obtain ⟨path, hpath, hanchor⟩ := exists_mem_anchor habsolute hmixed (by decide : Anchor.doubleRoot ≠ .relative)
    have hprefix := habove path hpath
    rw [commonAncestor_of_not_sharesRoot directory hmixed, Path.segments_of_anchor (by decide) hanchor] at hprefix
    exact absurd (List.cons_prefix_cons.1 hprefix).1 (by decide)
  · intro hshared
    obtain ⟨anchor, hanchor, hpaths⟩ := hshared.exists_absolute habsolute (List.ne_nil_of_length_pos (by omega))
    exact (prefix_segments_commonAncestor_iff hanchor directory hcount hpaths _).1 (List.prefix_refl _)

/-- What the segments of all paths begin with, those of their common ancestor begin with. -/
theorem prefix_segments_commonAncestor (habsolute : ∀ path ∈ paths, path.anchor ≠ .relative) (directory : Path)
    (hcount : 2 ≤ paths.length) {segments : List String} (hall : ∀ path ∈ paths, segments <+: path.segments) :
    segments <+: (commonAncestor directory paths).segments := by
  by_cases hshared : SharesRoot paths
  · obtain ⟨anchor, hanchor, hpaths⟩ := hshared.exists_absolute habsolute (List.ne_nil_of_length_pos (by omega))
    exact (prefix_segments_commonAncestor_iff hanchor directory hcount hpaths segments).2 hall
  · -- the first segments differ already
    obtain ⟨path, hpath, hroot⟩ := exists_mem_anchor habsolute hshared (by decide : Anchor.root ≠ .relative)
    obtain ⟨other, hother, hdouble⟩ := exists_mem_anchor habsolute hshared (by decide : Anchor.doubleRoot ≠ .relative)
    have hfirst := hall path hpath
    have hsecond := hall other hother
    rw [Path.segments_of_anchor (by decide) hroot] at hfirst
    rw [Path.segments_of_anchor (by decide) hdouble] at hsecond
    cases segments with
    | nil => exact List.nil_prefix
    | cons segment names =>
      have hone := (List.cons_prefix_cons.1 hfirst).1
      have htwo := (List.cons_prefix_cons.1 hsecond).1
      exact absurd (hone.symm.trans htwo) (by decide)

theorem SharesRoot.perm {others : List Path} (h : SharesRoot others) (hperm : others.Perm paths) : SharesRoot paths := by
  obtain ⟨anchor, hanchor⟩ := h
  exact ⟨anchor, fun path hpath => hanchor path (hperm.mem_iff.2 hpath)⟩

/-- The order of the paths makes no difference to their common ancestor. -/
theorem commonAncestor_perm (habsolute : ∀ path ∈ paths, path.anchor ≠ .relative) (directory : Path)
    {others : List Path} (hperm : others.Perm paths) (hcount : 2 ≤ paths.length) :
    commonAncestor directory others = commonAncestor directory paths := by
  by_cases hshared : SharesRoot paths
  swap
  · rw [commonAncestor_of_not_sharesRoot directory hshared,
      commonAncestor_of_not_sharesRoot directory fun h => hshared (h.perm hperm)]
  obtain ⟨anchor, habsolute, hpaths⟩ := hshared.exists_absolute habsolute (List.ne_nil_of_length_pos (by omega))
  obtain ⟨hanchor, hnames⟩ := commonAncestor_of_anchor habsolute directory hcount hpaths
  obtain ⟨hanchor', hnames'⟩ := commonAncestor_of_anchor habsolute directory (hperm.length_eq ▸ hcount)
    fun path hpath => hpaths path (hperm.mem_iff.1 hpath)
  -- each of the two is above all paths, so it is above the other one
  have hforth := (hnames _).2 fun path hpath => (hnames' _).1 (List.prefix_refl _) path (hperm.mem_iff.2 hpath)
  have hback := (hnames' _).2 fun path hpath => (hnames _).1 (List.prefix_refl _) path (hperm.mem_iff.1 hpath)
  exact congrArg₂ Path.mk (hanchor'.trans hanchor.symm) (hforth.eq_of_length_le hback.length_le)

end Ancestor

section Relative

variable {directory path other : Path}

theorem append_remainder (h : directory.names <+: path.names) :
    directory.names ++ (remainder directory path).names = path.names :=
  List.prefix_iff_eq_append.1 h

/-- A path is found again from the directory that it is below. -/
theorem join_remainder (h : path.anchor = directory.anchor ∧ directory.names <+: path.names) :
    directory.join (remainder directory path) = path := by
  have hrelative : (remainder directory path).anchor = .relative := rfl
  rw [Path.join, if_pos hrelative, append_remainder h.2, ← h.1]

/-- What is above another path is so below any directory. -/
theorem prefix_of_prefix_remainder (hpath : directory.names <+: path.names) (hother : directory.names <+: other.names)
    (h : (remainder directory path).names <+: (remainder directory other).names) : path.names <+: other.names := by
  rw [← append_remainder hpath, ← append_remainder hother]
  exact (List.prefix_append_right_inj _).2 h

/-- A path that is not above the others is not their common ancestor. -/
theorem remainder_ne_nil (habsolute : anchor ≠ .relative) (hpaths : ∀ path ∈ paths, path.anchor = anchor)
    (hnodup : paths.Nodup) (hpath : path ∈ paths) (hnames : path.names ≠ [])
    (hapart : ∀ other ∈ paths, path ≠ other → ¬ path.names <+: other.names) :
    (remainder (commonAncestor directory paths) path).names ≠ [] := by
  by_cases hcount : 2 ≤ paths.length
  · intro hnil
    have habove (other : Path) (hother : other ∈ paths) : (commonAncestor directory paths).names <+: other.names :=
      (commonAncestor_above habsolute directory hpaths hother).2
    have hself := append_remainder (habove path hpath)
    rw [hnil, List.append_nil] at hself
    have hothers : 0 < (paths.erase path).length := by
      rw [List.length_erase_of_mem hpath]
      omega
    obtain ⟨other, hrest⟩ := List.exists_mem_of_length_pos hothers
    obtain ⟨hne, hother⟩ := hnodup.mem_erase_iff.1 hrest
    apply hapart other hother (Ne.symm hne)
    rw [← hself]
    exact habove other hother
  · have hpos := List.length_pos_of_mem hpath
    obtain ⟨only, rfl⟩ := List.length_eq_one_iff.1 (by omega : paths.length = 1)
    obtain rfl := List.mem_singleton.1 hpath
    have hlength := List.length_pos_iff.2 hnames
    rw [remainder, ne_eq, List.drop_eq_nil_iff, commonAncestor, Path.parent, List.length_dropLast]
    omega

end Relative

/-- Names for files below a directory: each leads from there to its file, goes down only, and is neither the name of
another file nor above it. -/
structure Faithful (directory : Path) (files : List String) (parts : List (Path × Path)) : Prop where
  sources : parts.map Prod.fst = files.map Path.parse
  joined : parts.map (fun part => (directory.join part.2).text) = files
  relative : ∀ part ∈ parts, part.2.anchor = .relative
  nonempty : ∀ part ∈ parts, part.2.names ≠ []
  downward : ∀ part ∈ parts, ".." ∉ part.2.names
  apart : parts.Pairwise fun a b => a.2 ≠ b.2 ∧ ¬ a.2.names <+: b.2.names ∧ ¬ b.2.names <+: a.2.names

section Layout

theorem Normal.eq_of_parse_eq {file other : String} (h : Normal file) (h' : Normal other)
    (heq : Path.parse file = Path.parse other) : file = other := by
  rw [← h.written, heq, h'.written]

/-- Only a root itself has no names. -/
theorem Normal.names_ne_nil {file : String} (h : Normal file) (htop : file ≠ "/" ∧ file ≠ "//") :
    (Path.parse file).names ≠ [] := by
  intro hnil
  have htext : file = (Path.parse file).anchor.text := by
    conv_lhs => rw [← h.written]
    rw [Path.text, hnil, if_neg fun hrelative => h.absolute hrelative.1]
    simp [Text.joined]
  cases hanchor : (Path.parse file).anchor with
  | relative => exact h.absolute hanchor
  | root => exact htop.1 (htext.trans (by rw [hanchor]; rfl))
  | doubleRoot => exact htop.2 (htext.trans (by rw [hanchor]; rfl))

/-- Files of which none is above another one have faithful names below their common ancestor. -/
theorem faithful_remainders (habsolute : anchor ≠ .relative)
    (hpaths : ∀ path ∈ files.map Path.parse, path.anchor = anchor) (hnodup : files.Nodup)
    (hnormal : ∀ file ∈ files, Normal file) (hdown : ∀ file ∈ files, ".." ∉ (Path.parse file).names)
    (htop : ∀ file ∈ files, file ≠ "/" ∧ file ≠ "//")
    (hapart : ∀ file ∈ files, ∀ other ∈ files, file ≠ other → ¬ (Path.parse file).names <+: (Path.parse other).names) :
    let directory := commonAncestor (.absolute []) (files.map Path.parse)
    Faithful directory files ((files.map Path.parse).map fun path => (path, remainder directory path)) := by
  intro directory
  have hparsed : (files.map Path.parse).Nodup := hnodup.map_on fun file hfile other hother =>
    (hnormal file hfile).eq_of_parse_eq (hnormal other hother)
  have habove (file : String) (hfile : file ∈ files) :
      (Path.parse file).anchor = directory.anchor ∧ directory.names <+: (Path.parse file).names :=
    commonAncestor_above habsolute (.absolute []) hpaths (List.mem_map_of_mem hfile)
  have hincomparable (file : String) (hfile : file ∈ files) (other : String) (hother : other ∈ files)
      (hne : file ≠ other) : ¬ (remainder directory (Path.parse file)).names <+:
        (remainder directory (Path.parse other)).names := by
    intro hprefix
    exact hapart file hfile other hother hne
      (prefix_of_prefix_remainder (habove file hfile).2 (habove other hother).2 hprefix)
  rw [List.map_map]
  refine ⟨?_, ?_, ?_, ?_, ?_, ?_⟩
  · rw [List.map_map]
    rfl
  · rw [List.map_map]
    refine (List.map_congr_left fun file hfile => ?_).trans (List.map_id files)
    exact (congrArg Path.text (join_remainder (habove file hfile))).trans (hnormal file hfile).written
  · exact List.forall_mem_map.2 fun file hfile => rfl
  · refine List.forall_mem_map.2 fun file hfile => ?_
    apply remainder_ne_nil habsolute hpaths hparsed (List.mem_map_of_mem hfile)
      ((hnormal file hfile).names_ne_nil (htop file hfile))
    refine List.forall_mem_map.2 fun other hother hne => hapart file hfile other hother ?_
    exact fun heq => hne (congrArg Path.parse heq)
  · exact List.forall_mem_map.2 fun file hfile hdots => hdown file hfile (List.mem_of_mem_drop hdots)
  · refine List.pairwise_map.2 (hnodup.imp_of_mem fun {file other} hfile hother hne => ⟨?_, ?_, ?_⟩)
    · intro heq
      have hsame : remainder directory (Path.parse file) = remainder directory (Path.parse other) := heq
      apply hincomparable file hfile other hother hne
      rw [hsame]
    · exact hincomparable file hfile other hother hne
    · exact hincomparable other hother file hfile (Ne.symm hne)

end Layout

/-- Backups name files faithfully. The ancestor of two or more absolute paths is the same in every order and below
whatever is above all of them; it is itself above all of them exactly if they start at one root. If paths from one
root, without double dots, are all different, and neither a root nor above one another, each gets a name below the
ancestor: joined to it, the name gives the path back, and no name is empty, goes up, or is the same as another one or
above it. -/
theorem layout_is_faithful :
    (∀ files : List String, 2 ≤ files.length → (∀ file ∈ files, Normal file) →
      ∃ directory, (∀ w files', files'.Perm files → (ancestor files').run w = .ok directory w) ∧
        (∀ segments, (∀ file ∈ files, segments <+: (Path.parse file).segments) → segments <+: directory.segments) ∧
        ((∀ file ∈ files, directory.segments <+: (Path.parse file).segments) ↔ SharesRoot (files.map Path.parse))) ∧
    ∀ files : List String, files ≠ [] → files.Nodup → (∀ file ∈ files, Normal file) →
      SharesRoot (files.map Path.parse) → (∀ file ∈ files, ".." ∉ (Path.parse file).names) →
      (∀ file ∈ files, file ≠ "/" ∧ file ≠ "//") →
      (∀ file ∈ files, ∀ other ∈ files, file ≠ other → ¬ (Path.parse file).names <+: (Path.parse other).names) →
      ∃ directory parts, (∀ w, (ancestor files).run w = .ok directory w ∧ (layout files).run w = .ok parts w) ∧
        Faithful directory files parts := by
  have habsolute {files : List String} (hnormal : ∀ file ∈ files, Normal file) :
      ∀ path ∈ files.map Path.parse, path.anchor ≠ .relative :=
    List.forall_mem_map.2 fun file hfile => (hnormal file hfile).absolute
  constructor
  · intro files hcount hnormal
    have hmapped : 2 ≤ (files.map Path.parse).length := by rwa [List.length_map]
    refine ⟨commonAncestor (.absolute []) (files.map Path.parse), fun w files' hperm => ?_, fun segments hall => ?_, ?_⟩
    · have hsome : files' ≠ [] := List.ne_nil_of_length_pos (by rw [hperm.length_eq]; omega)
      rw [ancestor_of_ne_nil hsome,
        commonAncestor_perm (habsolute hnormal) (.absolute []) (hperm.map Path.parse) hmapped]
      rfl
    · exact prefix_segments_commonAncestor (habsolute hnormal) (.absolute []) hmapped (List.forall_mem_map.2 hall)
    · rw [← segments_commonAncestor_prefix_iff (habsolute hnormal) (.absolute []) hmapped, List.forall_mem_map]
  · intro files hfiles hnodup hnormal hshared hdown htop hapart
    obtain ⟨anchor, hanchor, hpaths⟩ := hshared.exists_absolute (habsolute hnormal) (by simpa using hfiles)
    refine ⟨_, _, fun w => ⟨?_, ?_⟩, faithful_remainders hanchor hpaths hnodup hnormal hdown htop hapart⟩
    · rw [ancestor_of_ne_nil hfiles]
      rfl
    · rw [layout_eq hanchor hfiles hpaths]
      rfl

/-- Files in directories of which one has a name that begins like the other's. -/
def cousins : List String :=
  ["/p/app/x", "/p/application", "/p/app/z/x"]

theorem layout_is_faithful_for_cousins :
    (∃ directory : Path, (∀ w, (ancestor cousins.reverse).run w = .ok directory w) ∧
      ∀ file ∈ cousins, directory.segments <+: (Path.parse file).segments) ∧
    ∃ directory parts, (∀ w, (layout cousins).run w = .ok parts w) ∧ Faithful directory cousins parts := by
  have hnormal : ∀ file ∈ cousins, Normal file := by decide +kernel
  have hshared : SharesRoot (cousins.map Path.parse) := ⟨.root, by decide +kernel⟩
  obtain ⟨hancestor, hlayout⟩ := layout_is_faithful
  constructor
  · obtain ⟨directory, hruns, -, habove⟩ := hancestor cousins (by decide) hnormal
    exact ⟨directory, fun w => hruns w _ (List.reverse_perm cousins), habove.2 hshared⟩
  · obtain ⟨directory, parts, hruns, hfaithful⟩ := hlayout cousins (by decide) (by decide +kernel) hnormal hshared
      (by decide +kernel) (by decide +kernel) (by decide +kernel)
    exact ⟨directory, parts, fun w => (hruns w).2, hfaithful⟩

/-- Files below different roots. -/
def strangers : List String :=
  ["/a", "//b"]

/-- Files below different roots have an ancestor that is not above all of them, and no names below it. The root with
two slashes is its own parent, so it has an empty name. -/
theorem layout_fails_for_strangers :
    (strangers.Nodup ∧ (∀ file ∈ strangers, Normal file ∧ ".." ∉ (Path.parse file).names ∧ file ≠ "/") ∧
      (∀ file ∈ strangers, ∀ other ∈ strangers, file ≠ other →
        ¬ (Path.parse file).segments <+: (Path.parse other).segments)) ∧
    (∀ w, (ancestor strangers).run w = .ok (.absolute []) w ∧
      (layout strangers).run w = .error (.notBelow "//b" "/") w) ∧
    ¬ (Path.absolute []).segments <+: (Path.parse "//b").segments ∧
    Normal "//" ∧ ∀ w, (layout ["//"]).run w = .ok [(⟨.doubleRoot, []⟩, ⟨.relative, []⟩)] w := by
  have hparsed : strangers.map Path.parse = [⟨.root, ["a"]⟩, ⟨.doubleRoot, ["b"]⟩] := by decide +kernel
  have hdouble : Path.parse "//" = ⟨.doubleRoot, []⟩ := by decide +kernel
  have hancestor : ancestor strangers = pure (.absolute []) := by
    rw [ancestor_of_ne_nil (by decide), hparsed]
    rfl
  refine ⟨by decide +kernel, fun w => ⟨by rw [hancestor]; rfl, ?_⟩, by decide +kernel, by decide +kernel, fun w => ?_⟩
  · rw [layout, hancestor, hparsed]
    rfl
  · rw [layout, ancestor_of_ne_nil (by decide), List.map_singleton, hdouble]
    rfl

end Backup

end TagStamp
