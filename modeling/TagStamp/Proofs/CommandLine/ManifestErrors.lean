import TagStamp.CommandLine.Execution
import TagStamp.Proofs.Json.Limits
import TagStamp.Proofs.Text.Utf8
import TagStamp.Proofs.Workspace.Transcript

namespace TagStamp

open TagStamp.Action

-- unfolding it would run the action
seal Action.Ends

/-- The octets are a text that the reader takes up: it reads it or finds a fault in it. -/
def Manifest.Readable (nesting : Nat) (octets : List UInt8) : Prop :=
  ∃ text, Utf8.encode text = octets ∧
    ∀ limit, Json.readNested nesting (Text.foldReturns text) ≠ .error (.beyond limit)

namespace Manifest

variable {w : Workspace} {path : Path} {nesting : Nat} {octets : List UInt8} {failure : Failure}

/-- Brackets that are not nested too deep and no long runs of digits make a text readable. -/
theorem Readable.of_fits {text : Text} (hfits : Json.Fits (.outside, nesting) (Text.foldReturns text)) :
    Readable nesting (Utf8.encode text) :=
  ⟨text, rfl, Json.readNested_ne_beyond hfits⟩

private theorem readable_iff_of_decode {text : Text} (h : Utf8.decode octets = .ok text) :
    Readable nesting octets ↔
      ∀ limit, Json.readNested nesting (Text.foldReturns text) ≠ .error (.beyond limit) := by
  constructor
  · rintro ⟨other, hother, hlimits⟩
    rw [← Utf8.decode_eq_ok_iff, h] at hother
    cases hother
    exact hlimits
  · exact fun hlimits => ⟨text, Utf8.decode_eq_ok_iff.1 h, hlimits⟩

/-- The manifest is to blame exactly for the faults of a text that can be read. -/
theorem forall_isManifest_iff_readable (nesting : Nat) (name : String) (octets : List UInt8) :
    (∀ failure, ofOctets nesting name octets = .error failure → failure.isManifest) ↔ Readable nesting octets := by
  unfold ofOctets
  split
  · next error hdecode =>
    refine iff_of_false (fun h => by simpa [Failure.isManifest] using h _ rfl) ?_
    rintro ⟨text, htext, -⟩
    rw [Utf8.decode_eq_ok_iff.2 htext] at hdecode
    cases hdecode
  · next text hdecode =>
    rw [readable_iff_of_decode hdecode]
    simp only
    split
    · next limit hlimit =>
      exact iff_of_false (fun h => by simpa [Failure.isManifest] using h _ rfl) fun h => h limit hlimit
    · next fault position hfault => simp [Failure.isManifest, hfault]
    · next json hjson =>
      split
      · simp [Failure.isManifest, hjson]
      · simp [hjson]

/-- Loading a file that is there comes down to its octets. -/
theorem ends_load_of_file {here : Standpoint} (hnul : '\x00' ∉ path.text.toList)
    (hfound : w.tree.locate w.directory .target path.text = .found here (.file octets))
    (hundisturbed : w.faults.readManifest = none) {done : Manifest → Workspace → Prop}
    {failed : Failure → Workspace → Prop} :
    (load path).Ends w done failed ↔ (ofExcept (ofOctets w.nesting path.text octets)).Ends w done failed := by
  have hcontains : path.text.toList.contains '\x00' = false := by simpa using hnul
  simp only [load, isFile, probe, readFile, hcontains, hfound, hundisturbed, ends_bind, ends_look, ends_pure,
    ends_get, ends_checkPath, ends_onDisk, Bool.false_eq_true, Bool.not_true, if_false]

end Manifest

namespace CommandLine

/-- The manifest that was asked for is a file that can be opened. -/
structure Offers (w : Workspace) (given : String) (path : Path) (octets : List UInt8) : Prop where
  resolves : ∃ w', (resolve (.parse given)).run { w with transcript := [] } = .ok path w'
  found : ∃ here, w.tree.locate w.directory .target path.text = .found here (.file octets)
  undisturbed : w.faults.readManifest = none

/-- The run returned one and only told that the manifest does not load, and why. -/
structure Reports (path : Path) (failure : Failure) (w : Workspace) (execution : Execution) : Prop where
  outcome : execution.outcome = .ok 1
  stdout : execution.stdout = ""
  stderr : execution.stderr = .text ("Error: Failed to load manifest \"" ++ path.text ++ "\": " ++ failure.message ++
    "\nGenerate a manifest by scanning and naming first, or specify --manifest <path>.\n")
  tree : execution.workspace.tree = w.tree

variable {w : Workspace} {argv : List String} {args : Arguments} {given : String} {path : Path}
  {octets : List UInt8} {failure : Failure}

namespace Offers

theorem of_ends (here : Standpoint) (hresolves : (resolve (.parse given)).Ends { w with transcript := [] }
      (fun resolved _ => resolved = path) fun _ _ => False)
    (hfound : w.tree.locate w.directory .target path.text = .found here (.file octets))
    (hundisturbed : w.faults.readManifest = none) : Offers w given path octets := by
  obtain ⟨_, w', hrun, rfl⟩ := hresolves.exists_ok
  exact ⟨⟨w', hrun⟩, ⟨here, hfound⟩, hundisturbed⟩

/-- What was said before does not matter. -/
theorem restart (h : Offers w given path octets) : Offers { w with transcript := [] } given path octets :=
  ⟨h.resolves, h.found, h.undisturbed⟩

theorem ends_load (h : Offers w given path octets) {done : Manifest → Workspace → Prop}
    {failed : Failure → Workspace → Prop} :
    (Manifest.load path).Ends w done failed ↔
      (ofExcept (Manifest.ofOctets w.nesting path.text octets)).Ends w done failed := by
  obtain ⟨here, hfound⟩ := h.found
  obtain ⟨w', hrun⟩ := h.resolves
  exact Manifest.ends_load_of_file ((ends_resolve_same _).ok hrun).1 hfound h.undisturbed

private theorem run_load (h : Offers w given path octets) :
    (Manifest.load path).run w =
      match Manifest.ofOctets w.nesting path.text octets with
      | .ok manifest => .ok manifest w
      | .error failure => .error failure w := by
  have hends : (Manifest.load path).Ends w
      (fun manifest w' => Manifest.ofOctets w.nesting path.text octets = .ok manifest ∧ w' = w)
      fun failure w' => Manifest.ofOctets w.nesting path.text octets = .error failure ∧ w' = w := by
    rw [h.ends_load, ends_ofExcept]
    split
    · next hok => exact ⟨hok, rfl⟩
    · next herror => exact ⟨herror, rfl⟩
  cases hrun : (Manifest.load path).run w with
  | ok manifest w' =>
    obtain ⟨hok, rfl⟩ := hends.ok hrun
    rw [hok]
  | error failure w' =>
    obtain ⟨herror, rfl⟩ := hends.error hrun
    rw [herror]

/-- A run whose manifest does not load ends with a report, or with the failure itself. -/
theorem ends_annotate (h : Offers w given path octets) (hgiven : args.manifest = some given)
    (hfailure : Manifest.ofOctets w.nesting path.text octets = .error failure) :
    (annotate args).Ends { w with transcript := [] }
      (fun code w' => failure.isManifest ∧ code = 1 ∧ w' = { w with transcript :=
        [.err ("Error: Failed to load manifest \"" ++ path.text ++ "\": " ++ failure.message ++ "\n"),
          .err "Generate a manifest by scanning and naming first, or specify --manifest <path>.\n"] })
      fun escaped _ => ¬ failure.isManifest ∧ escaped = failure := by
  obtain ⟨w₁, hrun⟩ := h.resolves
  obtain ⟨-, rfl⟩ := (ends_resolve_same _).ok hrun
  simp only [annotate, manifestPath, hgiven, ends_bind, ends_ofExcept]
  refine (run_eq_ok_iff.1 hrun).imp ?_ fun _ _ h => h.elim
  rintro path w₁ ⟨rfl, hw₁⟩
  rw [hw₁]
  simp only [elements?, ends_tryCatch, loadElements, ends_bind, h.restart.ends_load, hfailure, ends_ofExcept]
  split
  · next hblamed =>
    simp only [reportManifest, printError, ends_bind, ends_say, ends_pure]
    exact ⟨hblamed, trivial, rfl⟩
  · next hescapes => exact ends_throw.2 ⟨hescapes, rfl⟩

/-- The report of a run whose manifest does not load, unless the failure escapes. -/
theorem execute_cases (h : Offers w given path octets) (hparse : parseArguments argv = .ok args)
    (hgiven : args.manifest = some given) (hfailure : Manifest.ofOctets w.nesting path.text octets = .error failure) :
    (failure.isManifest ∧ Reports path failure w (execute argv w)) ∨
      (¬ failure.isManifest ∧ (execute argv w).outcome = .error failure) := by
  have hends := h.ends_annotate hgiven hfailure
  simp only [execute, hparse]
  cases hrun : (annotate args).run { w with transcript := [] } with
  | ok code w' =>
    obtain ⟨hblamed, rfl, rfl⟩ := hends.ok hrun
    exact .inl ⟨hblamed, rfl, rfl, by simp [finished, Output.onStderr, CodeString.join, String.append_assoc], rfl⟩
  | error escaped w' =>
    obtain ⟨hescapes, rfl⟩ := hends.error hrun
    exact .inr ⟨hescapes, rfl⟩

end Offers

/-- Of the manifests that can be opened, those that are not UTF-8 and those beyond the limits of the reader make
loading fail with a failure that is not one of a manifest, and no others. A run whose manifest does not
load returns one and reports it exactly if the manifest is not one of these; for these the failure
escapes. A text is within the limits if its brackets are not nested too deep and it has no long run of
digits. -/
theorem manifest_failure_reported_iff (hparse : parseArguments argv = .ok args) (hgiven : args.manifest = some given)
    (hoffers : Offers w given path octets) :
    (((∃ manifest w', (Manifest.load path).run w = .ok manifest w') ∨
        ∃ failure w', (Manifest.load path).run w = .error failure w' ∧ failure.isManifest) ↔
      Manifest.Readable w.nesting octets) ∧
    (∀ failure w', (Manifest.load path).run w = .error failure w' →
      (Reports path failure w (execute argv w) ↔ Manifest.Readable w.nesting octets) ∧
      (¬ Manifest.Readable w.nesting octets → (execute argv w).outcome = .error failure)) ∧
    ∀ text, Utf8.encode text = octets → Json.Fits (.outside, w.nesting) (Text.foldReturns text) →
      Manifest.Readable w.nesting octets := by
  rw [hoffers.run_load, ← Manifest.forall_isManifest_iff_readable w.nesting path.text octets]
  refine ⟨?_, ?_, ?_⟩
  · cases hresult : Manifest.ofOctets w.nesting path.text octets with
    | ok manifest => simp
    | error failure => simp
  · intro failure w' hrun
    cases hresult : Manifest.ofOctets w.nesting path.text octets with
    | ok manifest => simp [hresult] at hrun
    | error other =>
      simp only [hresult, EStateM.Result.error.injEq] at hrun
      obtain ⟨rfl, rfl⟩ := hrun
      simp only [Except.error.injEq, forall_eq']
      obtain ⟨hblamed, hreports⟩ | ⟨hescapes, houtcome⟩ := hoffers.execute_cases hparse hgiven hresult
      · exact ⟨iff_of_true hreports hblamed, fun h => absurd hblamed h⟩
      · exact ⟨iff_of_false (fun h => by simpa [houtcome] using h.outcome) hescapes, fun _ => houtcome⟩
  · rintro text rfl hfits
    exact (Manifest.forall_isManifest_iff_readable _ _ _).2 (.of_fits hfits)

/-- A directory with a manifest of one octet. -/
def bare (octet : UInt8) : Workspace where
  tree := ⟨[(["p"], .directory), (["p", "manifest.json"], .file [octet])]⟩
  directory := ⟨["p"], 0⟩

/-- A brace that is never closed is reported. -/
theorem manifest_failure_reported_in_bare :
    ∃ failure w', (Manifest.load (.absolute ["p", "manifest.json"])).run (bare 0x7b) = .error failure w' ∧
      Reports (.absolute ["p", "manifest.json"]) failure (bare 0x7b)
        (execute ["annotate", "--manifest", "manifest.json"] (bare 0x7b)) := by
  have hparse : parseArguments ["annotate", "--manifest", "manifest.json"] =
      .ok { manifest := some "manifest.json" } := by
    decide +kernel
  have hoffers : Offers (bare 0x7b) "manifest.json" (.absolute ["p", "manifest.json"]) [0x7b] :=
    .of_ends ⟨["p", "manifest.json"], 0⟩ (by decide +kernel) (by decide +kernel) rfl
  have hload : (Manifest.load (.absolute ["p", "manifest.json"])).Ends (bare 0x7b) (fun _ _ => False)
      fun _ _ => True := by
    decide +kernel
  have hfits : Json.Fits (.outside, (bare 0x7b).nesting) (Text.foldReturns ['\x7b']) :=
    ⟨by decide +kernel, fun digits hdigits _ => hdigits.length_le.trans (by decide)⟩
  obtain ⟨-, hreported, hreadable⟩ := manifest_failure_reported_iff hparse rfl hoffers
  cases hrun : (Manifest.load (.absolute ["p", "manifest.json"])).run (bare 0x7b) with
  | ok manifest w' => exact (hload.ok hrun).elim
  | error failure w' =>
    exact ⟨failure, w', rfl, (hreported failure w' hrun).1.2 (hreadable ['\x7b'] (by decide +kernel) hfits)⟩

/-- An octet that begins no character makes the run fail. -/
theorem manifest_failure_escapes_in_bare :
    Offers (bare 0xff) "manifest.json" (.absolute ["p", "manifest.json"]) [0xff] ∧
      (execute ["annotate", "--manifest", "manifest.json"] (bare 0xff)).outcome =
        .error (.undecodable ⟨0, 0xff, 1, .start⟩) :=
  ⟨.of_ends ⟨["p", "manifest.json"], 0⟩ (by decide +kernel) (by decide +kernel) rfl, by decide +kernel⟩

end CommandLine

end TagStamp
