import TagStamp.CommandLine.Annotate
import TagStamp.Proofs.Workspace.Disk

namespace TagStamp

open TagStamp.Action

-- unfolding it would run the action
seal Action.Ends

namespace Manifest

/-- The place of the file that an element is in. -/
def Element.place (directory : Location) (e : Element) : Location :=
  (Path.parse e.filePath).destination directory

/-- The element with the absolute path of its file. -/
def Element.resolved (directory : Location) (e : Element) : Element :=
  { e with filePath := (Path.absolute (e.place directory)).text }

/-- The manifest that stands in a file. -/
def StandsAt (w : Workspace) (place : Location) (manifest : Manifest) : Prop :=
  ∃ octets, w.tree.content? place = some octets ∧
    ofOctets w.nesting (Path.absolute place).text octets = .ok manifest

variable {w : Workspace} {place : Location}

/-- What is loaded stands in a file that the path leads to. -/
theorem ends_load_found (path : Path) :
    (load path).Ends w
      (fun manifest w' => (∃ here octets, w.tree.locate w.directory .target path.text = .found here (.file octets) ∧
        ofOctets w.nesting path.text octets = .ok manifest) ∧ w' = w)
      fun _ w' => w' = w := by
  simp only [load, ends_bind]
  refine (ends_isFile path.text).imp ?_ fun _ _ h => h.2
  rintro isFile _ rfl
  split
  · simp only [ends_bind, ends_throw]
  simp only [ends_bind, ends_get]
  split
  · simp only [ends_bind, ends_throw]
  rw [ends_bind]
  refine (ends_readFile_found path.text).rethrow.imp ?_ fun _ _ h => h.2
  rintro octets _ ⟨⟨here, hfound⟩, rfl⟩
  rw [ends_bind, ends_get, ends_ofExcept]
  split
  · next manifest hmanifest => exact ⟨⟨here, octets, hfound, hmanifest⟩, rfl⟩
  · exact rfl

theorem ends_load (hw : w.tree.Linkless) (hplace : ∀ name ∈ place, IsName name) :
    (load (.absolute place)).Ends w (fun manifest w' => StandsAt w place manifest ∧ w' = w)
      fun _ w' => w' = w := by
  refine (ends_load_found _).imp ?_ fun _ _ h => h
  rintro manifest w' ⟨⟨here, octets, hfound, hmanifest⟩, hw'⟩
  rw [FileTree.locate_eq_found_iff hw hplace] at hfound
  exact ⟨⟨octets, FileTree.content?_eq_some_iff.2 hfound.2.2, hmanifest⟩, hw'⟩

theorem ends_resolveElements (hw : w.Sound) (elements : List Element) :
    (resolveElements (.absolute w.directory.place) elements).Ends w
      (fun resolved w' => resolved = elements.map (Element.resolved w.directory.place) ∧ w' = w)
      fun _ w' => w' = w := by
  have hround (e : Element) (_ : e ∈ elements) :
      (do return { e with filePath := ← resolveFile (.absolute w.directory.place) e.filePath } :
        Action Element).Ends w (fun resolved w' => resolved = e.resolved w.directory.place ∧ w' = w)
        fun _ w' => w' = w := by
    have hsteps : ∀ name ∈ ((Path.absolute w.directory.place).join (.parse e.filePath)).names, IsStep name := by
      intro name hname
      unfold Path.join at hname
      split at hname
      · rw [List.mem_append] at hname
        obtain hname | hname := hname
        · exact (hw.named name hname).isStep
        · exact Path.isStep_of_mem_parse hname
      · exact Path.isStep_of_mem_parse hname
    simp only [resolveFile, ends_bind, ends_pure]
    refine (ends_resolve hw.linkless hsteps).imp ?_ fun _ _ h => h.2
    rintro q _ ⟨rfl, -, rfl⟩
    rw [Path.destination_join hw.named]
    exact ⟨rfl, rfl⟩
  exact ends_mapM_same hround

end Manifest

namespace CommandLine

variable {w : Workspace} {place : Location}

theorem ends_loadElements (hw : w.Sound) (hplace : ∀ name ∈ place, IsName name) :
    (loadElements (.absolute place)).Ends w
      (fun elements w' => (∃ manifest, Manifest.StandsAt w place manifest ∧
        elements = manifest.elements.map (Manifest.Element.resolved w.directory.place)) ∧ w.Logged w')
      fun _ w' => w.Logged w' := by
  simp only [loadElements, ends_bind]
  refine (Manifest.ends_load hw.linkless hplace).imp ?_ (by rintro _ _ rfl; exact .refl _)
  rintro manifest w₁ ⟨hmanifest, hw₁⟩
  rw [hw₁, ends_log, ends_workingDirectory, if_neg (by simp [hw.kept])]
  -- the log entry changes neither the tree nor the directory that the files are named from
  have hlogged := (Workspace.Logged.refl w).log
    ⟨.debug, "Loaded " ++ toString manifest.elements.length ++ " element(s) from " ++ (Path.absolute place).text⟩
  refine (Manifest.ends_resolveElements (hlogged.evolves.sound hw) manifest.elements).imp ?_
    (by rintro _ _ rfl; exact hlogged)
  rintro _ _ ⟨rfl, rfl⟩
  exact ⟨⟨manifest, hmanifest, rfl⟩, hlogged⟩

/-- A manifest that does not load is only reported. -/
theorem ends_elements? (hw : w.Sound) (hplace : ∀ name ∈ place, IsName name) :
    (elements? (.absolute place)).Ends w
      (fun result w' => match result with
        | none => w'.tree = w.tree
        | some elements => (∃ manifest, Manifest.StandsAt w place manifest ∧
            elements = manifest.elements.map (Manifest.Element.resolved w.directory.place)) ∧ w.Logged w')
      fun _ w' => w'.tree = w.tree := by
  simp only [elements?, ends_tryCatch, ends_bind, ends_pure]
  refine (ends_loadElements hw hplace).imp (fun _ _ h => h) fun failure w₁ h₁ => ?_
  have htree := h₁.tree
  split
  · simpa only [reportManifest, printError, ends_bind, ends_say, ends_pure] using htree
  · exact ends_throw.2 htree

end CommandLine

end TagStamp
