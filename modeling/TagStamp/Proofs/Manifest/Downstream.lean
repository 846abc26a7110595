import TagStamp.Proofs.CommandLine.Loading
import TagStamp.Proofs.Manifest.Validation
import TagStamp.Proofs.Stamp.EditLines
import TagStamp.Proofs.Text.Utf8

namespace TagStamp.Manifest

open TagStamp.Action

-- unfolding it would run the action
seal Action.Ends

variable {w w' : Workspace} {path : Path} {manifest : Manifest} {octets : List UInt8}

private theorem exists_document_of_ofOctets {nesting : Nat} {name : String} (h : ofOctets nesting name octets = .ok manifest) :
    ∃ text document, Utf8.encode text = octets ∧ Json.readNested nesting (Text.foldReturns text) = .ok document ∧
      check document = .good manifest := by
  unfold ofOctets at h
  split at h
  · cases h
  next text hdecode =>
  simp only at h
  split at h
  · cases h
  · cases h
  next document hread =>
  split at h
  · cases h
  next checked hcheck =>
  cases h
  exact ⟨text, document, Utf8.decode_eq_ok_iff.1 hdecode, hread, hcheck⟩

/-- A manifest that loads comes from a file whose document lists its elements, item by item and in their order.
Each element has an identifier of a small letter followed by small letters, digits, dots and hyphens, a type
and a file, and a position that counts from one. Whichever of them a run is given, the result has as many
lines as the source, and a line without an edit on it is as it was. -/
theorem elements_of_load_keep_lines (hload : (load path).run w = .ok manifest w') :
    (∃ here octets text document, w.tree.locate w.directory .target path.text = .found here (.file octets) ∧
      Utf8.encode text = octets ∧ Json.readNested w.nesting (Text.foldReturns text) = .ok document ∧
      Lists document manifest.elements) ∧
    (∀ e ∈ manifest.elements, e.WellFormed) ∧
    ∀ source chosen, chosen ⊆ manifest.elements →
      (Text.lines (Stamp.run source (chosen.map Element.target)).text).length = (Text.lines source).length ∧
      (Stamp.editLines source (chosen.map Element.target)).length =
        (Stamp.run source (chosen.map Element.target)).applied ∧
      ∀ i ∉ Stamp.editLines source (chosen.map Element.target),
        (Text.lines (Stamp.run source (chosen.map Element.target)).text)[i]? = (Text.lines source)[i]? := by
  obtain ⟨⟨here, octets, hfound, hoctets⟩, -⟩ := (ends_load_found path).ok hload
  obtain ⟨text, document, hencode, hread, hcheck⟩ := exists_document_of_ofOctets hoctets
  obtain ⟨hlists, hwell⟩ := elements_of_check hcheck
  refine ⟨⟨here, octets, text, document, hfound, hencode, hread, hlists⟩, hwell, ?_⟩
  intro source chosen hchosen
  refine Stamp.keeps_lines_run ?_ source
  rw [List.forall_mem_map]
  exact fun e he => (hwell e (hchosen he)).feed_notMem

/-- A document with a line break in it, a number in a string, and a member under its other name. -/
def listing : Text :=
  "\x7b\"schemaVersion\":\"1.0\",\"elements\":[\x7b\"agent_id\":\"a.b-1\",\"type\":\"p\",\r\n".toList ++
    "\"filePath\":\"f\",\"line\":\" 2\",\"column\":1\x7d]\x7d".toList

def desk : Workspace where
  tree := ⟨[(["m"], .file (Utf8.encode listing))]⟩
  directory := ⟨[], 0⟩

def page : Text :=
  "<a>\n<p>\n<b>".toList

theorem elements_of_load_keep_lines_on_desk :
    ∃ manifest w', (load (.absolute ["m"])).run desk = .ok manifest w' ∧ (∀ e ∈ manifest.elements, e.WellFormed) ∧
      (Stamp.run page (manifest.elements.map Element.target)).text = "<a>\n<p data-agent-id=\"a.b-1\">\n<b>".toList ∧
      Stamp.editLines page (manifest.elements.map Element.target) = [1] ∧
      (Text.lines (Stamp.run page (manifest.elements.map Element.target)).text)[2]? = (Text.lines page)[2]? := by
  have hends : (load (.absolute ["m"])).Ends desk
      (fun manifest _ => manifest.elements.map Element.target =
        [{ agentId := "a.b-1".toList, line := 2, column := 1, type := "p".toList }]) fun _ _ => False := by
    decide +kernel
  obtain ⟨manifest, w', hload, htargets⟩ := hends.exists_ok
  obtain ⟨-, hwell, hkeeps⟩ := elements_of_load_keep_lines hload
  have hlines : Stamp.editLines page (manifest.elements.map Element.target) = [1] := by
    rw [htargets, Stamp.editLines, Stamp.inOrder_of_pairwise (List.pairwise_singleton _ _)]
    decide +kernel
  refine ⟨manifest, w', hload, hwell, ?_, hlines, (hkeeps page manifest.elements (List.Subset.refl _)).2.2 2 ?_⟩
  · rw [htargets, Stamp.run, Stamp.inOrder_of_pairwise (List.pairwise_singleton _ _)]
    decide +kernel
  · rw [hlines]
    decide

end TagStamp.Manifest
