import Mathlib.Data.List.Nodup
import TagStamp.Batch.Run

namespace TagStamp.Batch

/-- The targets that requests have for a file. -/
def targetsIn (requests : List Request) (file : String) : List Stamp.Target :=
  (requests.filter (·.file = file)).map Request.target

/-- Groups that hold exactly the given requests. -/
structure Groups (requests : List Request) (groups : List (String × List Stamp.Target)) : Prop where
  nodup : (groups.map Prod.fst).Nodup
  files : ∀ file, file ∈ groups.map Prod.fst ↔ file ∈ requests.map Request.file
  targets : ∀ group ∈ groups, group.2 = targetsIn requests group.1

variable {requests : List Request} {groups : List (String × List Stamp.Target)} {r : Request}

theorem map_fst_addTo (groups : List (String × List Stamp.Target)) (r : Request) :
    (addTo groups r).map Prod.fst =
      if r.file ∈ groups.map Prod.fst then groups.map Prod.fst else groups.map Prod.fst ++ [r.file] := by
  induction groups with
  | nil => simp [addTo]
  | cons group rest ih =>
    obtain ⟨file, targets⟩ := group
    rw [addTo]
    by_cases heq : file = r.file
    · simp [heq]
    · simp only [if_neg heq, List.map_cons, ih, List.mem_cons, Ne.symm heq, false_or]
      split <;> simp

/-- A group grows by the target if it is the one of its file, and is new if there was none. -/
theorem targets_addTo (hnodup : (groups.map Prod.fst).Nodup) {group : String × List Stamp.Target}
    (h : group ∈ addTo groups r) :
    (group.1 ≠ r.file ∧ group ∈ groups) ∨
      (∃ targets, (r.file, targets) ∈ groups ∧ group = (r.file, targets ++ [r.target])) ∨
      (r.file ∉ groups.map Prod.fst ∧ group = (r.file, [r.target])) := by
  induction groups with
  | nil => exact .inr (.inr ⟨by simp, List.mem_singleton.1 h⟩)
  | cons first rest ih =>
    obtain ⟨file, targets⟩ := first
    rw [List.map_cons, List.nodup_cons] at hnodup
    rw [addTo] at h
    by_cases heq : file = r.file
    · rw [if_pos heq, List.mem_cons] at h
      obtain rfl | hrest := h
      · exact .inr (.inl ⟨targets, by simp [heq], by rw [heq]⟩)
      · refine .inl ⟨fun hfile => hnodup.1 ?_, List.mem_cons_of_mem _ hrest⟩
        exact List.mem_map.2 ⟨group, hrest, hfile.trans heq.symm⟩
    · rw [if_neg heq, List.mem_cons] at h
      obtain rfl | hrest := h
      · exact .inl ⟨heq, List.mem_cons_self⟩
      · obtain ⟨hfile, hmem⟩ | ⟨targets', hmem, hgroup⟩ | ⟨hnew, hgroup⟩ := ih hnodup.2 hrest
        · exact .inl ⟨hfile, List.mem_cons_of_mem _ hmem⟩
        · exact .inr (.inl ⟨targets', List.mem_cons_of_mem _ hmem, hgroup⟩)
        · exact .inr (.inr ⟨by simpa [Ne.symm heq] using hnew, hgroup⟩)

private theorem targetsIn_append_of_ne (requests : List Request) {file : String} (h : file ≠ r.file) :
    targetsIn (requests ++ [r]) file = targetsIn requests file := by
  simp [targetsIn, Ne.symm h]

theorem targetsIn_append_self (requests : List Request) (r : Request) :
    targetsIn (requests ++ [r]) r.file = targetsIn requests r.file ++ [r.target] := by
  simp [targetsIn]

private theorem targetsIn_eq_nil {file : String} (h : file ∉ requests.map Request.file) :
    targetsIn requests file = [] := by
  rw [targetsIn, List.map_eq_nil_iff, List.filter_eq_nil_iff]
  intro r hr heq
  exact h (List.mem_map.2 ⟨r, hr, by simpa using heq⟩)

theorem Groups.addTo (h : Groups requests groups) (r : Request) :
    Groups (requests ++ [r]) (Batch.addTo groups r) where
  nodup := by
    rw [map_fst_addTo]
    split
    · exact h.nodup
    · next hnew => exact List.nodup_append'.2 ⟨h.nodup, by simp, by simpa using hnew⟩
  files file := by
    rw [map_fst_addTo, List.map_append, List.mem_append, ← h.files]
    split
    · next hold =>
      refine ⟨.inl, fun h => h.elim id ?_⟩
      intro hfile
      rw [List.map_singleton, List.mem_singleton] at hfile
      exact hfile ▸ hold
    · simp
  targets group hgroup := by
    obtain ⟨hne, hmem⟩ | ⟨targets, hmem, rfl⟩ | ⟨hnew, rfl⟩ := targets_addTo h.nodup hgroup
    · rw [targetsIn_append_of_ne requests hne, h.targets group hmem]
    · have htargets : targets = targetsIn requests r.file := h.targets _ hmem
      rw [targetsIn_append_self, ← htargets]
    · rw [h.files] at hnew
      rw [targetsIn_append_self, targetsIn_eq_nil hnew, List.nil_append]

theorem groups_groupByFile (requests : List Request) : Groups requests (groupByFile requests) := by
  have hfold (seen rest : List Request) (groups : List (String × List Stamp.Target)) (h : Groups seen groups) :
      Groups (seen ++ rest) (rest.foldl Batch.addTo groups) := by
    induction rest generalizing seen groups with
    | nil => simpa using h
    | cons r rest ih => simpa using ih (seen ++ [r]) (Batch.addTo groups r) (h.addTo r)
  exact hfold [] requests [] ⟨by simp, by simp, by simp⟩

end TagStamp.Batch
