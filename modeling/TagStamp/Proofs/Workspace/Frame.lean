import Mathlib.Data.Set.Insert
import TagStamp.Proofs.FileTree.Lookup
import TagStamp.Proofs.Workspace.Ends

namespace TagStamp

namespace Workspace

/-- Nothing happened but logging. -/
def Logged (w w' : Workspace) : Prop :=
  ∃ entries : List Log.Entry, w' = { w with transcript := w.transcript ++ entries.map .log }

/-- Files changed at touched places only, and no directory was removed. -/
structure Evolves (touched : Set Location) (w w' : Workspace) : Prop where
  content : ∀ place ∉ touched, w'.tree.content? place = w.tree.content? place
  directories : ∀ place, w.tree.get? place = some .directory → w'.tree.get? place = some .directory
  linkless : w.tree.Linkless → w'.tree.Linkless
  directory : w'.directory = w.directory
  faults : w'.faults = w.faults
  transcript : ∃ entries : List Log.Entry, w'.transcript = w.transcript ++ entries.map .log

/-- There are no links, and the working directory is where it seems to be. -/
structure Sound (w : Workspace) : Prop where
  linkless : w.tree.Linkless
  kept : w.directory.isLost = false
  named : ∀ name ∈ w.directory.place, IsName name

variable {w w' w'' : Workspace} {touched touched' : Set Location} {place : Location}

theorem Logged.refl (w : Workspace) : w.Logged w :=
  ⟨[], by simp⟩

theorem Logged.trans (h : w.Logged w') (h' : w'.Logged w'') : w.Logged w'' := by
  obtain ⟨entries, rfl⟩ := h
  obtain ⟨entries', rfl⟩ := h'
  exact ⟨entries ++ entries', by simp⟩

theorem Logged.log (h : w.Logged w') (entry : Log.Entry) :
    w.Logged { w' with transcript := w'.transcript ++ [.log entry] } :=
  h.trans ⟨[entry], by simp⟩

theorem Logged.tree (h : w.Logged w') : w'.tree = w.tree := by
  obtain ⟨entries, rfl⟩ := h
  rfl

theorem Logged.evolves (h : w.Logged w') : w.Evolves ∅ w' := by
  obtain ⟨entries, rfl⟩ := h
  exact ⟨fun _ _ => rfl, fun _ h => h, id, rfl, rfl, entries, rfl⟩

namespace Evolves

theorem refl (touched : Set Location) (w : Workspace) : w.Evolves touched w :=
  ⟨fun _ _ => rfl, fun _ h => h, id, rfl, rfl, [], by simp⟩

theorem mono (h : w.Evolves touched w') (hsub : touched ⊆ touched') : w.Evolves touched' w' :=
  { h with content := fun place hplace => h.content place fun hmem => hplace (hsub hmem) }

theorem trans (h : w.Evolves touched w') (h' : w'.Evolves touched w'') : w.Evolves touched w'' where
  content place hplace := (h'.content place hplace).trans (h.content place hplace)
  directories place hplace := h'.directories place (h.directories place hplace)
  linkless hw := h'.linkless (h.linkless hw)
  directory := h'.directory.trans h.directory
  faults := h'.faults.trans h.faults
  transcript := by
    obtain ⟨entries, hentries⟩ := h.transcript
    obtain ⟨entries', hentries'⟩ := h'.transcript
    exact ⟨entries ++ entries', by simp [hentries, hentries']⟩

theorem log (h : w.Evolves touched w') (entry : Log.Entry) :
    w.Evolves touched { w' with transcript := w'.transcript ++ [.log entry] } :=
  h.trans (((Logged.refl w').log entry).evolves.mono (Set.empty_subset touched))

theorem sound (h : w.Evolves touched w') (hw : w.Sound) : w'.Sound where
  linkless := h.linkless hw.linkless
  kept := by rw [h.directory, hw.kept]
  named := by
    rw [h.directory]
    exact hw.named

/-- A directory is not touched, since it stays a directory. -/
theorem diff_directory (h : w.Evolves touched w') (hplace : w.tree.get? place = some .directory) :
    w.Evolves (touched \ {place}) w' where
  __ := h
  content other hother := by
    by_cases heq : other = place
    · rw [heq, FileTree.content?, FileTree.content?, h.directories place hplace, hplace]
    · exact h.content other fun htouched => hother ⟨htouched, heq⟩

/-- A path that can be looked up stays one. -/
theorem leads (h : w.Evolves touched w') (hplace : w.tree.Leads place) : w'.tree.Leads place :=
  hplace.mono fun other _ => h.directories other

end Evolves

/-- A file is written where no directory is. -/
theorem evolves_set_file (hplace : w.tree.get? place ≠ some .directory) (content : List UInt8) :
    w.Evolves {place} { w with tree := w.tree.set place (.file content) } where
  content other hother := FileTree.content?_congr (FileTree.get?_set_of_ne _ _ hother)
  directories _ := FileTree.get?_set_of_directory hplace
  linkless h := h.set rfl
  directory := rfl
  faults := rfl
  transcript := ⟨[], by simp⟩

/-- A directory is made where nothing is. -/
theorem evolves_set_directory (hplace : w.tree.get? place = none) :
    w.Evolves ∅ { w with tree := w.tree.set place .directory } where
  content _ _ := FileTree.content?_set_directory hplace
  directories _ := FileTree.get?_set_of_directory (by simp [hplace])
  linkless h := h.set rfl
  directory := rfl
  faults := rfl
  transcript := ⟨[], by simp⟩

end Workspace

namespace Action

variable {β : Type} {w : Workspace}

/-- A loop of rounds that each give one file its content. What a round writes depends on no file that the
loop touches, so that the order does not matter. -/
theorem ends_forM_files {xs : List β} {f : β → Action Unit} {place : β → Location}
    {content : β → Workspace → Option (List UInt8)} {reason : Failure → Prop}
    (hapart : xs.Pairwise fun x y => place x ≠ place y)
    (hcontent : ∀ x ∈ xs, ∀ y ∈ xs, ∀ w w', w.Evolves {place y} w' → content x w' = content x w)
    (hround : ∀ x ∈ xs, ∀ w, w.tree.Linkless →
      (f x).Ends w (fun _ w' => w.Evolves {place x} w' ∧ w'.tree.content? (place x) = content x w)
        fun failure w' => reason failure ∧ w.Evolves {place x} w')
    (hw : w.tree.Linkless) :
    (xs.forM f).Ends w
      (fun _ w' => w.Evolves {p | ∃ x ∈ xs, p = place x} w' ∧
        ∀ x ∈ xs, w'.tree.content? (place x) = content x w)
      fun failure w' => reason failure ∧ w.Evolves {p | ∃ x ∈ xs, p = place x} w' := by
  induction xs generalizing w with
  | nil => exact ⟨.refl _ w, by simp⟩
  | cons x rest ih =>
    rw [List.pairwise_cons] at hapart
    rw [ends_forM_cons]
    have hfirst : {place x} ⊆ {p | ∃ y ∈ x :: rest, p = place y} := by
      rintro _ rfl
      exact ⟨x, List.mem_cons_self, rfl⟩
    have hlater : {p | ∃ y ∈ rest, p = place y} ⊆ {p | ∃ y ∈ x :: rest, p = place y} := by
      rintro _ ⟨y, hy, rfl⟩
      exact ⟨y, List.mem_cons_of_mem x hy, rfl⟩
    refine (hround x List.mem_cons_self w hw).imp (fun _ w₁ ⟨hstep, hx⟩ => ?_) fun _ _ h =>
      ⟨h.1, h.2.mono hfirst⟩
    have hrest := ih hapart.2
      (fun y hy z hz => hcontent y (List.mem_cons_of_mem x hy) z (List.mem_cons_of_mem x hz))
      (fun y hy => hround y (List.mem_cons_of_mem x hy)) (hstep.linkless hw)
    refine hrest.imp (fun _ w₂ ⟨hsteps, hys⟩ => ⟨(hstep.mono hfirst).trans (hsteps.mono hlater), ?_⟩)
      fun _ _ h => ⟨h.1, (hstep.mono hfirst).trans (h.2.mono hlater)⟩
    rw [List.forall_mem_cons]
    constructor
    · -- the later rounds leave the first file alone
      rw [hsteps.content, hx]
      rintro ⟨y, hy, hplace⟩
      exact hapart.1 y hy hplace
    · intro y hy
      rw [hys y hy, hcontent y (List.mem_cons_of_mem x hy) x List.mem_cons_self w w₁ hstep]

end Action

end TagStamp
