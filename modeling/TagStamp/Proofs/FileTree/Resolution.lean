import TagStamp.Proofs.FileTree.Lookup
import TagStamp.Proofs.Workspace.Ends

namespace TagStamp

namespace Path

/-- One step of a search that meets no links. -/
def advance (p : Path) (name : String) : Path :=
  if name = ".." then p.above else { p with names := p.names ++ [name] }

/-- Double dots stand at the front only, and only in a relative path. -/
def Reduced (p : Path) : Prop :=
  ∃ k names, p.names = List.replicate k ".." ++ names ∧ (∀ name ∈ names, IsName name) ∧
    (p.anchor ≠ .relative → k = 0)

variable {p : Path} {name : String} {directory : Location}

private theorem anchor_advance (p : Path) (name : String) : (p.advance name).anchor = p.anchor := by
  unfold advance above parent
  split
  · split <;> rfl
  · rfl

theorem destination_of_names {q : Path} (hanchor : q.anchor = p.anchor) {name : String} (hname : IsName name)
    (hnames : p.names = q.names ++ [name]) : p.destination directory = q.destination directory ++ [name] := by
  rw [destination, destination, hnames, hanchor, descend_append, descend, if_neg hname.dot, if_neg hname.dots,
    descend]

private theorem reduced_advance (hp : p.Reduced) (hname : IsStep name) : (p.advance name).Reduced := by
  obtain ⟨k, names, hnames, hproper, hrelative⟩ := hp
  unfold advance
  split
  · next hdots =>
    unfold above parent
    split
    · next hup =>
      have hempty : names = [] := by
        rw [List.eq_nil_iff_forall_not_mem]
        intro n hn
        have hall := List.all_eq_true.1 hup.2 n (by rw [hnames]; exact List.mem_append_right _ hn)
        exact (hproper n hn).dots (by simpa using hall)
      refine ⟨k + 1, [], ?_, by simp, fun h => absurd hup.1 h⟩
      simp [hnames, hempty, List.replicate_succ']
    · obtain rfl | ⟨front, last, rfl⟩ := List.eq_nil_or_concat' names
      · refine ⟨k - 1, [], by simp [hnames], by simp, fun h => ?_⟩
        simp [hrelative h]
      · refine ⟨k, front, ?_, fun n hn => hproper n (by simp [hn]), hrelative⟩
        simp only [hnames, ← List.append_assoc, List.dropLast_concat]
  · next hdots =>
    refine ⟨k, names ++ [name], by simp [hnames], ?_, hrelative⟩
    intro n hn
    rw [List.mem_append, List.mem_singleton] at hn
    obtain hn | rfl := hn
    · exact hproper n hn
    · exact hname.isName hdots

/-- A step of the search goes where the name leads. -/
theorem destination_advance (hp : p.Reduced) (hname : IsStep name) :
    (p.advance name).destination directory = descend (p.destination directory) [name] := by
  obtain ⟨k, names, hnames, hproper, hrelative⟩ := hp
  unfold advance
  split
  · next hdots =>
    have hdescend : descend (p.destination directory) [name] = (p.destination directory).dropLast := by
      rw [descend, if_neg hname.dot, if_pos hdots, descend]
    rw [hdescend]
    unfold above parent
    split
    · simp only [destination, descend_append]
      rfl
    · next hup =>
      obtain rfl | ⟨front, last, rfl⟩ := List.eq_nil_or_concat' names
      · -- only double dots, and not from the working directory: the root is above itself
        have hanchor : p.anchor ≠ .relative := by
          intro h
          exact hup ⟨h, by simp [hnames]⟩
        simp [destination, hnames, hrelative hanchor, hanchor, descend]
      · have hfront : p.names = p.names.dropLast ++ [last] := by
          rw [hnames, ← List.append_assoc, List.dropLast_concat]
        rw [destination_of_names (p := p) (q := { p with names := p.names.dropLast }) rfl
          (hproper last (by simp)) hfront, List.dropLast_concat]
  · next hdots =>
    rw [destination_of_names (p := { p with names := p.names ++ [name] }) (q := p) rfl (hname.isName hdots) rfl,
      descend, if_neg hname.dot, if_neg hdots, descend]

theorem anchor_foldl_advance (p : Path) (names : List String) : (names.foldl advance p).anchor = p.anchor := by
  induction names generalizing p with
  | nil => rfl
  | cons name rest ih => rw [List.foldl_cons, ih, anchor_advance]

private theorem destination_foldl_advance {names : List String} (hp : p.Reduced) (hnames : ∀ name ∈ names, IsStep name) :
    (names.foldl advance p).destination directory = descend (p.destination directory) names := by
  induction names generalizing p with
  | nil => rfl
  | cons name rest ih =>
    rw [List.forall_mem_cons] at hnames
    rw [List.foldl_cons, ih (reduced_advance hp hnames.1) hnames.2, destination_advance hp hnames.1,
      ← descend_append]
    rfl

/-- An anchored path that a search ends at has no second slash. -/
theorem normal_eq_absolute (hp : p.anchor ≠ .doubleRoot) :
    p.normal directory = .absolute (p.destination directory) := by
  obtain ⟨anchor, names⟩ := p
  cases anchor with
  | relative => rfl
  | root => rfl
  | doubleRoot => exact absurd rfl hp

end Path

/-- Without links a search ends after the last name, or at a NUL. -/
theorem Search.along_of_unlinked {linkAt : Path → Option String} (hlink : ∀ p, linkAt p = none)
    (follow : Seen → Path → String → Search × Seen) (seen : Seen) (p : Path) (pieces : List Text) :
    (along linkAt follow seen p pieces).1 = .nullByte ∨
      (along linkAt follow seen p pieces).1 =
        .reached (((pieces.filter fun name => name ≠ [] ∧ name ≠ ['.']).map String.ofList).foldl Path.advance p) := by
  induction pieces generalizing p with
  | nil => exact .inr rfl
  | cons name rest ih =>
    rw [along]
    by_cases hsilent : name = [] ∨ name = ['.']
    · rw [if_pos hsilent, List.filter_cons_of_neg (by simp; tauto)]
      exact ih p
    rw [if_neg hsilent, List.filter_cons_of_pos (by simp; tauto), List.map_cons, List.foldl_cons]
    by_cases hdots : name = ['.', '.']
    · rw [if_pos hdots, hdots]
      exact ih p.above
    rw [if_neg hdots]
    split
    · exact .inl rfl
    · have hadvance : p.advance (String.ofList name) = { p with names := p.names ++ [String.ofList name] } :=
        if_neg fun heq => hdots (by simpa using congrArg String.toList heq)
      simp only [hlink, hadvance]
      exact ih _

/-- Without links a path is searched for at the place that it spells. -/
theorem FileTree.search_of_linkless {t : FileTree} (ht : t.Linkless) (standpoint : Standpoint) {p : Path}
    (hp : ∀ name ∈ p.names, IsStep name) :
    t.search standpoint p = .nullByte ∨ ∃ q, t.search standpoint p = .reached q ∧ q.anchor ≠ .doubleRoot ∧
      (q.anchor = .relative ↔ p.anchor = .relative) ∧
      ∀ directory, q.destination directory = p.destination directory := by
  let start : Path := if p.anchor = .relative then ⟨.relative, []⟩ else .absolute []
  have hstart : (if p.text.toList.head? = some '/' then Path.absolute [] else ⟨.relative, []⟩) = start := by
    simp only [Path.head?_text hp, start, ne_eq, ite_not]
  have hreduced : start.Reduced := by
    refine ⟨0, [], ?_, by simp, fun _ => rfl⟩
    simp only [start]
    split <;> rfl
  have hanchor : start.anchor ≠ .doubleRoot ∧ (start.anchor = .relative ↔ p.anchor = .relative) := by
    simp only [start]
    split
    · next h => simp [h]
    · next h => simp [h, Path.absolute]
  have halong := Search.along_of_unlinked (linkAt_eq_none ht standpoint)
    (Search.within (t.linkAt standpoint) (t.linkCount * pathLimit)) [] start (Text.pieces '/' p.text.toList)
  have hnames : ((Text.pieces '/' p.text.toList).filter fun name => name ≠ [] ∧ name ≠ ['.']).map String.ofList =
      p.names := Path.names_parse_text hp
  rw [hnames] at halong
  rw [FileTree.search, Search.within, hstart]
  refine halong.imp id fun hreached => ⟨_, hreached, ?_, ?_, fun directory => ?_⟩
  · rw [Path.anchor_foldl_advance]
    exact hanchor.1
  · rw [Path.anchor_foldl_advance]
    exact hanchor.2
  · rw [Path.destination_foldl_advance hreduced hp, Path.destination, Path.destination]
    simp only [start]
    split <;> rfl

/-- Resolving a path gives the place that it spells, and changes nothing. A relative path is refused where the
working directory was removed. -/
theorem Action.ends_resolve {w : Workspace} (ht : w.tree.Linkless) {p : Path}
    (hp : ∀ name ∈ p.names, IsStep name) :
    (resolve p).Ends w
      (fun q w' => q = .absolute (p.destination w.directory.place) ∧ '\x00' ∉ q.text.toList ∧ w' = w)
      fun failure w' => failure.isDirect ∧ w' = w := by
  have hunlinked (path : String) : w.tree.locate w.directory .target path ≠ .refused .tooManyLinks := by
    intro hrefused
    have hlocate : (w.tree.locate w.directory .target path).isUnlinked = true := FileTree.isUnlinked_locate ht _ _
    rw [hrefused] at hlocate
    cases hlocate
  simp only [resolve, ends_bind, ends_get]
  obtain hnull | ⟨q, hq, hsingle, hrelative, hdestination⟩ := w.tree.search_of_linkless ht w.directory hp
  · rw [hnull]
    exact ⟨rfl, rfl⟩
  have hbase : ¬ q.anchor = .relative → p.destination [] = p.destination w.directory.place := by
    intro habsolute
    rw [hrelative] at habsolute
    rw [Path.destination, Path.destination, if_neg habsolute, if_neg habsolute]
  rw [hq]
  simp only
  split
  · simp only [ends_bind, ends_workingDirectory, Path.normal_eq_absolute hsingle, hdestination,
      ends_checkPath, ends_look]
    split
    · exact ⟨rfl, trivial⟩
    split
    · exact ⟨rfl, trivial⟩
    · next hnul =>
      split
      · next h => exact absurd h (hunlinked _)
      · exact ⟨rfl, by simpa using hnul, rfl⟩
  · next habsolute =>
    simp only [ends_bind, ends_pure, Path.normal_eq_absolute hsingle, hdestination, ends_checkPath, ends_look,
      hbase habsolute]
    split
    · exact ⟨rfl, trivial⟩
    · next hnul =>
      split
      · next h => exact absurd h (hunlinked _)
      · exact ⟨rfl, by simpa using hnul, rfl⟩

end TagStamp
