import TagStamp.Proofs.Diff.Applier
import TagStamp.Proofs.Text.Lines

namespace TagStamp.Diff

/-- The edits of a script lie in the groups, and each group keeps its context away from the records before
the given one and from the other groups. -/
def Covers (changes : List Change) : Nat → List (Nat × Nat) → Prop
  | k, [] => ∀ c ∈ changes.drop k, c.isEdit = false
  | k, (first, last) :: rest =>
    k ≤ first - context ∧ first ≤ last ∧
      (∀ c ∈ (changes.take (first - context)).drop k, c.isEdit = false) ∧
      Covers changes (last + context + 1) rest

theorem mem_editIndices {changes : List Change} {i : Nat} :
    i ∈ editIndices changes ↔ ∃ c, changes[i]? = some c ∧ c.isEdit = true := by
  simp only [editIndices, List.mem_filterMap, Prod.exists, List.mem_zipIdx_iff_getElem?]
  constructor
  · rintro ⟨c, j, hc, hj⟩
    split at hj
    · next hedit =>
      cases hj
      exact ⟨c, hc, hedit⟩
    · cases hj
  · rintro ⟨c, hc, hedit⟩
    exact ⟨c, i, hc, by simp [hedit]⟩

theorem pairwise_editIndices (changes : List Change) : (editIndices changes).Pairwise (· < ·) := by
  have hfilter : editIndices changes = (changes.zipIdx.filter fun record => record.1.isEdit).map Prod.snd := by
    rw [editIndices, ← List.filterMap_eq_map, ← List.filterMap_eq_filter, List.filterMap_filterMap]
    congr 1
    funext record
    cases h : record.1.isEdit <;> simp [h, Option.guard]
  have hsublist : (editIndices changes).Sublist (List.range' 0 changes.length) := by
    rw [hfilter, ← List.zipIdx_map_snd 0 changes]
    exact List.filter_sublist.map Prod.snd
  exact List.Pairwise.sublist hsublist List.pairwise_lt_range'

/-- Records without an edit among their indices are no edits. -/
theorem not_isEdit_of_mem_slice {changes : List Change} {a b : Nat}
    (h : ∀ i ∈ editIndices changes, a ≤ i → b ≤ i) : ∀ c ∈ (changes.take b).drop a, c.isEdit = false := by
  intro c hc
  obtain ⟨n, hn⟩ := List.mem_iff_getElem?.1 hc
  rw [List.getElem?_drop, List.getElem?_take] at hn
  split at hn
  · next hlt =>
    cases hedit : c.isEdit with
    | false => rfl
    | true =>
      have := h (a + n) (mem_editIndices.2 ⟨c, hn, hedit⟩) (by omega)
      omega
  · cases hn

theorem not_isEdit_of_mem_drop {changes : List Change} {a : Nat} (h : ∀ i ∈ editIndices changes, i < a) :
    ∀ c ∈ changes.drop a, c.isEdit = false := by
  intro c hc
  obtain ⟨n, hn⟩ := List.mem_iff_getElem?.1 hc
  rw [List.getElem?_drop] at hn
  cases hedit : c.isEdit with
  | false => rfl
  | true =>
    have := h (a + n) (mem_editIndices.2 ⟨c, hn, hedit⟩)
    omega

/-- Extending a group or starting a new one, the groups cover the edits from a record on as long as no edit
was left out. -/
theorem covers_groupsFrom {changes : List Change} {k first last : Nat} {indices : List Nat}
    (hk : k ≤ first - context) (hle : first ≤ last) (hsorted : (last :: indices).Pairwise (· < ·))
    (hedits : ∀ i ∈ editIndices changes, k ≤ i → first ≤ i ∧ (i ≤ last ∨ i ∈ indices)) :
    Covers changes k (groupsFrom first last indices) := by
  have hgap : ∀ c ∈ (changes.take (first - context)).drop k, c.isEdit = false := by
    apply not_isEdit_of_mem_slice
    intro i hi hki
    have := (hedits i hi hki).1
    omega
  induction indices generalizing k first last with
  | nil =>
    refine ⟨hk, hle, hgap, not_isEdit_of_mem_drop ?_⟩
    intro i hi
    by_contra hfar
    obtain ⟨-, hlast | hmem⟩ := hedits i hi (by omega)
    · omega
    · cases hmem
  | cons index rest ih =>
    have hnext := List.rel_of_pairwise_cons hsorted List.mem_cons_self
    rw [groupsFrom]
    split
    · apply ih hk (by omega) hsorted.of_cons _ hgap
      intro i hi hki
      obtain ⟨hfirst, hlast | hmem⟩ := hedits i hi hki
      · exact ⟨hfirst, .inl (by omega)⟩
      · rw [List.mem_cons] at hmem
        obtain rfl | hmem := hmem
        · exact ⟨hfirst, .inl (Nat.le_refl _)⟩
        · exact ⟨hfirst, .inr hmem⟩
    · -- The next edit is so far away that the context of both groups fits between them.
      next hfar =>
      have hcontext : context = 3 := rfl
      have hafter : ∀ i ∈ editIndices changes, last + context + 1 ≤ i →
          index ≤ i ∧ (i ≤ index ∨ i ∈ rest) := by
        intro i hi hki
        obtain ⟨-, hlast | hmem⟩ := hedits i hi (by omega)
        · omega
        · rw [List.mem_cons] at hmem
          obtain rfl | hmem := hmem
          · exact ⟨Nat.le_refl _, .inl (Nat.le_refl _)⟩
          · have hlt := List.rel_of_pairwise_cons hsorted.of_cons hmem
            exact ⟨Nat.le_of_lt hlt, .inr hmem⟩
      refine ⟨hk, hle, hgap, ih (by omega) (Nat.le_refl _) hsorted.of_cons hafter ?_⟩
      apply not_isEdit_of_mem_slice
      intro i hi hki
      have := (hafter i hi hki).1
      omega

theorem covers_groups (changes : List Change) : Covers changes 0 (groups (editIndices changes)) := by
  have hsorted := pairwise_editIndices changes
  cases hindices : editIndices changes with
  | nil =>
    apply not_isEdit_of_mem_drop
    simp [hindices]
  | cons index rest =>
    rw [hindices] at hsorted
    apply covers_groupsFrom (Nat.zero_le _) (Nat.le_refl _) hsorted
    intro i hi _
    rw [hindices, List.mem_cons] at hi
    obtain rfl | hi := hi
    · exact ⟨Nat.le_refl _, .inl (Nat.le_refl _)⟩
    · exact ⟨Nat.le_of_lt (List.rel_of_pairwise_cons hsorted hi), .inr hi⟩

theorem take_eq_append_slice {α : Type} (l : List α) {a b : Nat} (h : a ≤ b) :
    l.take b = l.take a ++ (l.take b).drop a := by
  have hbefore : l.take a = (l.take b).take a := by rw [List.take_take, Nat.min_eq_left h]
  rw [hbefore, List.take_append_drop]

theorem drop_eq_slice_append {α : Type} (l : List α) {a b : Nat} (h : a ≤ b) :
    l.drop a = (l.take b).drop a ++ l.drop b :=
  calc l.drop a = (l.drop a).take (b - a) ++ (l.drop a).drop (b - a) := (List.take_append_drop _ _).symm
    _ = (l.take b).drop a ++ l.drop b := by rw [List.drop_take, List.drop_drop, Nat.add_sub_cancel' h]

/-- The hunks of a numbered script begin on each side at the line after those before them. -/
theorem range_of_numbered {changes : List Change} (hnumbered : NumberedFrom (fun _ => 0) changes)
    {first last : Nat} (hle : first ≤ last) (side : Side) :
    (Hunk.of changes first last).range side =
      ⟨(linesOn side (changes.take (first - context))).length + 1,
        (linesOn side ((changes.take (last + context + 1)).drop (first - context))).length⟩ := by
  rw [← List.take_append_drop (last + context + 1) changes, numberedFrom_append,
    take_eq_append_slice changes (a := first - context) (by omega)] at hnumbered
  have hstart := startOn_of_numbered side hnumbered.1
  have hcount := countP_index?_eq side ((changes.take (last + context + 1)).drop (first - context))
  rw [← hstart, ← hcount]
  cases side <;> rfl

namespace Applier

/-- Where the reader stands when it has the first records of a script behind it. -/
def past (side : Side) (changes : List Change) (k : Nat) : Applier :=
  { made := linesOn side.other (changes.take k)
    rest := linesOn side (changes.drop k)
    position := (linesOn side (changes.take k)).length }

theorem isIdle_past (side : Side) (changes : List Change) (k : Nat) : (past side changes k).isIdle = true :=
  rfl

/-- One record of a hunk is read, made, or both. -/
theorem step_render (side : Side) (c : Change) (made rest : List Text) (position toRead toMake : Nat) :
    step side ⟨made, (c.lineOn? side).toList ++ rest, position, (c.lineOn? side).toList.length + toRead,
        (c.lineOn? side.other).toList.length + toMake⟩ c.render =
      some ⟨made ++ (c.lineOn? side.other).toList, rest, position + (c.lineOn? side).toList.length, toRead,
        toMake⟩ := by
  have hread : 0 < 1 + toRead := by omega
  have hmake : 0 < 1 + toMake := by omega
  cases c <;> cases side <;>
    simp [step, isIdle, Change.render, Change.lineOn?, Side.index?, Side.other, Side.mark, Change.old?,
      Change.new?, Change.line, read, make, hread, hmake]

private theorem foldlM_render (side : Side) (records : List Change) (made rest : List Text) (position : Nat) :
    (records.map Change.render).foldlM (step side) ⟨made, linesOn side records ++ rest, position,
        (linesOn side records).length, (linesOn side.other records).length⟩ =
      some ⟨made ++ linesOn side.other records, rest, position + (linesOn side records).length, 0, 0⟩ := by
  induction records generalizing made position with
  | nil => simp
  | cons c records ih =>
    simp only [List.map_cons, List.foldlM_cons, linesOn_cons, List.append_assoc, List.length_append, step_render]
    rw [Option.bind_eq_bind, Option.bind_some, ih]
    simp [Nat.add_assoc]

/-- The header of a hunk takes the reader over the records before it, which are the same on both sides. -/
theorem enter_past {side : Side} {changes : List Change} {a k count count' : Nat} {h : Header} (hk : k ≤ a)
    (hsame : ∀ c ∈ (changes.take a).drop k, c.isEdit = false)
    (hside : h.on side = ⟨(linesOn side (changes.take a)).length + 1, count⟩)
    (hother : h.on side.other = ⟨(linesOn side.other (changes.take a)).length + 1, count'⟩) :
    (past side changes k).enter side h =
      some { past side changes a with toRead := count, toMake := count' } := by
  have hlines : ∀ side, linesOn side (changes.take a) =
      linesOn side (changes.take k) ++ ((changes.take a).drop k).map Change.line := by
    intro side
    rw [← linesOn_of_not_isEdit hsame side, ← linesOn_append, ← take_eq_append_slice changes hk]
  have hrest : linesOn side (changes.drop k) =
      ((changes.take a).drop k).map Change.line ++ linesOn side (changes.drop a) := by
    rw [← linesOn_of_not_isEdit hsame side, ← linesOn_append, ← drop_eq_slice_append changes hk]
  have hcopied : (h.on side).start - 1 - (past side changes k).position =
      (((changes.take a).drop k).map Change.line).length := by
    rw [hside, hlines, List.length_append]
    simp only [past]
    omega
  rw [enter]
  simp only [hcopied]
  rw [if_pos]
  · simp only [past, hside, hother, hrest, hlines, List.take_left, List.drop_left, List.length_append]
  · refine ⟨?_, ?_, ?_⟩
    · rw [hside, hlines, List.length_append]
      simp only [past]
      omega
    · simp [past, hrest]
    · rw [hother, hlines, List.length_append]
      rfl

/-- A hunk takes the reader over its records. -/
theorem foldlM_hunk {side : Side} {changes : List Change} (hnumbered : NumberedFrom (fun _ => 0) changes)
    {k first last : Nat} (hk : k ≤ first - context) (hle : first ≤ last)
    (hsame : ∀ c ∈ (changes.take (first - context)).drop k, c.isEdit = false) :
    (Hunk.of changes first last).lines.foldlM (step side) (past side changes k) =
      some (past side changes (last + context + 1)) := by
  have hslice : first - context ≤ last + context + 1 := by omega
  have hside := range_of_numbered hnumbered hle side
  have hother := range_of_numbered hnumbered hle side.other
  have hheader : ∀ side, Header.on ⟨(Hunk.of changes first last).range .old,
      (Hunk.of changes first last).range .new⟩ side = (Hunk.of changes first last).range side := by
    intro side
    cases side <;> rfl
  rw [← hheader] at hside hother
  have hstep : step side (past side changes k) (Hunk.of changes first last).header =
      some { past side changes (first - context) with
        toRead := (linesOn side ((changes.take (last + context + 1)).drop (first - context))).length
        toMake := (linesOn side.other ((changes.take (last + context + 1)).drop (first - context))).length } := by
    unfold step
    rw [if_pos (isIdle_past side changes k), readHeader?_header]
    exact enter_past hk hsame hside hother
  have hrest := congrArg (linesOn side) (drop_eq_slice_append changes hslice)
  have htake := fun side => congrArg (linesOn side) (take_eq_append_slice changes hslice)
  simp only [linesOn_append] at hrest htake
  rw [Hunk.lines, List.foldlM_cons, hstep, Option.bind_eq_bind, Option.bind_some]
  simp only [past, hrest]
  apply (foldlM_render side _ _ _ _).trans
  simp only [htake, List.length_append]

/-- The hunks take the reader over all edits, and what is left is the same on both sides. -/
theorem foldlM_hunks {side : Side} {changes : List Change} (hnumbered : NumberedFrom (fun _ => 0) changes)
    {k : Nat} {groups : List (Nat × Nat)} (h : Covers changes k groups) :
    (((groups.map fun group => Hunk.of changes group.1 group.2).flatMap Hunk.lines).foldlM (step side)
      (past side changes k)).bind finish = some (linesOn side.other changes) := by
  induction groups generalizing k with
  | nil =>
    have hrest : linesOn side (changes.drop k) = linesOn side.other (changes.drop k) := by
      rw [linesOn_of_not_isEdit h side, linesOn_of_not_isEdit h side.other]
    change finish (past side changes k) = _
    rw [finish, if_pos (isIdle_past side changes k)]
    simp only [past]
    rw [hrest, ← linesOn_append, List.take_append_drop]
  | cons group rest ih =>
    obtain ⟨first, last⟩ := group
    obtain ⟨hk, hle, hsame, hrest⟩ := h
    rw [List.map_cons, List.flatMap_cons, List.foldlM_append, foldlM_hunk hnumbered hk hle hsame]
    exact ih hrest

end Applier

/-- The hunks between two lists turn either of them into the other. -/
theorem applyHunks_hunks (side : Side) (old new : List Text) :
    applyHunks side ((hunks (script old new)).flatMap Hunk.lines) (side.pick old new) =
      some (side.other.pick old new) := by
  have hstart : ({ rest := side.pick old new } : Applier) = Applier.past side (script old new) 0 := by
    simp [Applier.past, linesOn_script]
  rw [applyHunks, hstart, hunks, Applier.foldlM_hunks (numbered_script old new) (covers_groups _), linesOn_script]

theorem hunks_eq_nil_iff {old new : List Text} : hunks (script old new) = [] ↔ old = new := by
  rw [← script_not_isEdit_iff, hunks, List.map_eq_nil_iff]
  constructor
  · intro hnone
    have hcovers := covers_groups (script old new)
    rw [hnone] at hcovers
    exact hcovers
  · intro hsame
    cases hindices : editIndices (script old new) with
    | nil => rfl
    | cons index rest =>
      have hmem : index ∈ editIndices (script old new) := by rw [hindices]; exact List.mem_cons_self
      obtain ⟨c, hc, hedit⟩ := mem_editIndices.1 hmem
      rw [hsame c (List.mem_of_getElem? hc)] at hedit
      cases hedit

/-- The lines of a diff between different lists. -/
theorem diffLines_of_ne {path : Text} {old new : List Text} (h : old ≠ new) :
    diffLines path old new =
      ("--- a/".toList ++ path) :: ("+++ b/".toList ++ path) :: (hunks (script old new)).flatMap Hunk.lines := by
  unfold diffLines
  split
  · next hnone => exact absurd (hunks_eq_nil_iff.1 hnone) h
  · rfl

theorem unified_eq_nil_iff {path : Text} {old new : List Text} : unified path old new = [] ↔ old = new := by
  constructor
  · intro hempty
    by_contra hne
    rw [unified, diffLines_of_ne hne] at hempty
    simp [Text.unlines, Text.joined] at hempty
  · intro heq
    rw [unified, diffLines, hunks_eq_nil_iff.2 heq]
    rfl

/-- Every record has its line from one of the sides. -/
theorem exists_side_of_mem_script {old new : List Text} {c : Change} (h : c ∈ script old new) :
    ∃ side : Side, c.line ∈ side.pick old new := by
  have hside : ∃ side, c.lineOn? side = some c.line := by
    cases c with
    | same i j line => exact ⟨.old, rfl⟩
    | removed i line => exact ⟨.old, rfl⟩
    | added j line => exact ⟨.new, rfl⟩
  obtain ⟨side, hline⟩ := hside
  refine ⟨side, ?_⟩
  rw [← linesOn_script, linesOn, List.mem_filterMap]
  exact ⟨c, h, hline⟩

private theorem feed_notMem_header (h : Hunk) : '\n' ∉ h.header := by
  have hdigits : ∀ n, '\n' ∉ Nat.toDigits 10 n := by
    intro n hmem
    have := Nat.isDigit_of_mem_toDigits (by decide) (by decide) hmem
    simp at this
  simp [Hunk.header, hdigits]

/-- Lines without line feeds make up a diff whose lines are those that were written. -/
theorem lines_unified {path : Text} {old new : List Text} (hne : old ≠ new) (hpath : '\n' ∉ path)
    (hold : ∀ line ∈ old, '\n' ∉ line) (hnew : ∀ line ∈ new, '\n' ∉ line) :
    Text.lines (unified path old new) =
      ("--- a/".toList ++ path) :: ("+++ b/".toList ++ path) :: (hunks (script old new)).flatMap Hunk.lines := by
  rw [unified, diffLines_of_ne hne]
  apply Text.lines_unlines (List.cons_ne_nil _ _)
  intro line hline
  rw [List.mem_cons, List.mem_cons, List.mem_flatMap] at hline
  obtain rfl | rfl | ⟨hunk, hhunk, hline⟩ := hline
  · simp [hpath]
  · simp [hpath]
  · rw [Hunk.lines, List.mem_cons] at hline
    obtain rfl | hline := hline
    · exact feed_notMem_header hunk
    · obtain ⟨group, -, rfl⟩ := List.mem_map.1 hhunk
      obtain ⟨c, hc, rfl⟩ := List.mem_map.1 hline
      obtain ⟨side, hside⟩ := exists_side_of_mem_script (List.mem_of_mem_take (List.mem_of_mem_drop hc))
      have hfree : '\n' ∉ c.line := by
        cases side with
        | old => exact hold _ hside
        | new => exact hnew _ hside
      cases c <;> simpa [Change.render, Change.line] using hfree

/-- A diff as text turns either side into the other. -/
theorem patched?_unified {path : Text} {old new : List Text} (hpath : '\n' ∉ path)
    (hold : ∀ line ∈ old, '\n' ∉ line) (hnew : ∀ line ∈ new, '\n' ∉ line) (side : Side) :
    patched? side path (unified path old new) (side.pick old new) = some (side.other.pick old new) := by
  by_cases heq : old = new
  · rw [patched?, if_pos (unified_eq_nil_iff.2 heq), heq]
    cases side <;> rfl
  · rw [patched?, if_neg (mt unified_eq_nil_iff.1 heq), lines_unified heq hpath hold hnew]
    simp [applyHunks_hunks]

/-- A diff is empty exactly if both sides are equal. Otherwise its first two lines name the file, and the
hunks after them turn the old lines into the new ones and the new ones into the old ones. For two texts, the
patch between them turns the one into the other. -/
theorem unified_applies_both_ways (path : String) (old new : List Text) (hpath : '\n' ∉ path.toList)
    (hold : ∀ line ∈ old, '\n' ∉ line) (hnew : ∀ line ∈ new, '\n' ∉ line) :
    (unified path.toList old new = [] ↔ old = new) ∧
      (old ≠ new → ∃ hunks,
        Text.lines (unified path.toList old new) =
          ("--- a/".toList ++ path.toList) :: ("+++ b/".toList ++ path.toList) :: hunks ∧
        applyHunks .old hunks old = some new ∧ applyHunks .new hunks new = some old) ∧
      ∀ before after : Text,
        ((FilePatch.of path before after).diff = [] ↔ before = after) ∧
        (patched? .old path.toList (FilePatch.of path before after).diff (Text.lines before)).map Text.unlines =
          some after ∧
        (patched? .new path.toList (FilePatch.of path before after).diff (Text.lines after)).map Text.unlines =
          some before := by
  refine ⟨unified_eq_nil_iff, ?_, ?_⟩
  · intro hne
    exact ⟨_, lines_unified hne hpath hold hnew, applyHunks_hunks .old old new, applyHunks_hunks .new old new⟩
  · intro before after
    have hfree : ∀ text : Text, ∀ line ∈ Text.lines text, '\n' ∉ line := fun text line hline =>
      Text.notMem_of_mem_lines hline
    have happly := patched?_unified hpath (hfree before) (hfree after)
    have hforward := happly .old
    have hbackward := happly .new
    simp only [Side.pick, Side.other] at hforward hbackward
    refine ⟨?_, ?_, ?_⟩
    · rw [FilePatch.of, unified_eq_nil_iff]
      exact ⟨Text.eq_of_lines_eq, congrArg Text.lines⟩
    · rw [FilePatch.of, hforward, Option.map_some, Text.unlines_lines]
    · rw [FilePatch.of, hbackward, Option.map_some, Text.unlines_lines]

/-- A line that is exchanged at the top and one that is added at the end, too far from it to share a hunk. -/
def longPage : List Text :=
  ["<p>", "1", "2", "3", "4", "5", "6", "7", "8"].map String.toList

def editedPage : List Text :=
  ["<p id>", "1", "2", "3", "4", "5", "6", "7", "8", "</p>"].map String.toList

theorem unified_applies_to_longPage :
    unified "p.html".toList longPage editedPage =
        ("--- a/p.html\n+++ b/p.html\n@@ -1,4 +1,4 @@\n-<p>\n+<p id>\n 1\n 2\n 3\n" ++
          "@@ -7,3 +7,4 @@\n 6\n 7\n 8\n+</p>").toList ∧
      ∃ hunks,
        Text.lines (unified "p.html".toList longPage editedPage) =
          ("--- a/".toList ++ "p.html".toList) :: ("+++ b/".toList ++ "p.html".toList) :: hunks ∧
        applyHunks .old hunks longPage = some editedPage ∧ applyHunks .new hunks editedPage = some longPage := by
  refine ⟨by decide +kernel, ?_⟩
  have happlies := unified_applies_both_ways "p.html" longPage editedPage (by decide) (by decide) (by decide)
  exact happlies.2.1 (by decide)

end TagStamp.Diff
