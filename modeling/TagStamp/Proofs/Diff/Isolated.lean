import TagStamp.Proofs.Diff.HunkLayout

namespace TagStamp.Diff

/-- Two lists of the same length that do not differ in two lines next to each other. -/
structure Isolated (old new : List Text) : Prop where
  length_eq : old.length = new.length
  apart : ∀ i < old.length, old[i]? = new[i]? ∨ old[i + 1]? = new[i + 1]?

/-- The records for a line and its counterpart: one where they agree, and an exchange where they do not. -/
def lineRecords (i : Nat) (pair : Text × Text) : List Change :=
  if pair.1 = pair.2 then [.same i i pair.1] else [.removed i pair.1, .added i pair.2]

/-- The records of lines and their counterparts, counted from the given line on. -/
def lineByLine (i : Nat) (pairs : List (Text × Text)) : List Change :=
  (pairs.zipIdx i).flatMap fun record => lineRecords record.2 record.1

/-- The hunk that shows the lines from `a` on and before `b`. -/
def Hunk.ofLines (pairs : List (Text × Text)) (a b : Nat) : Hunk where
  oldStart := a + 1
  oldCount := b - a
  newStart := a + 1
  newCount := b - a
  body := (lineByLine a ((pairs.take b).drop a)).map Change.render

theorem lineByLine_cons (i : Nat) (pair : Text × Text) (rest : List (Text × Text)) :
    lineByLine i (pair :: rest) = lineRecords i pair ++ lineByLine (i + 1) rest := by
  simp [lineByLine]

private theorem lineByLine_append (i : Nat) (a b : List (Text × Text)) :
    lineByLine i (a ++ b) = lineByLine i a ++ lineByLine (i + a.length) b := by
  rw [lineByLine, List.zipIdx_append, List.flatMap_append]
  rfl

/-- There is nothing to agree on behind the last lines. -/
theorem sync?_singleton (a b : Text) : sync? [a] [b] = none := by
  rw [sync?, List.findSome?_eq_none_iff]
  intro distance hdistance
  have hbeyond : ∀ line : Text, [line][distance]? = none := fun line =>
    List.getElem?_eq_none (List.mem_range'_1.1 hdistance).1
  simp [syncAt?, hbeyond]

/-- The nearest agreement is right after the mismatch if the next lines are equal. Whether one of them equals a
line of the mismatch makes no difference. -/
theorem sync?_cons_cons (a b c : Text) (old new : List Text) :
    sync? (a :: c :: old) (b :: c :: new) = some (1, 1) := by
  have hnext : syncAt? (a :: c :: old) (b :: c :: new) 1 = some (1, 1) := by simp [syncAt?]
  rw [sync?, show List.range' 1 (lookahead - 1) = 1 :: List.range' 2 (lookahead - 2) from rfl,
    List.findSome?_cons, hnext]

namespace Isolated

variable {a b : Text} {old new : List Text}

theorem tail (h : Isolated (a :: old) (b :: new)) : Isolated old new := by
  refine ⟨by simpa using h.length_eq, fun i hi => ?_⟩
  exact h.apart (i + 1) (by simpa using hi)

private theorem head?_eq (h : Isolated (a :: old) (b :: new)) (hne : a ≠ b) : old.head? = new.head? := by
  have hapart := h.apart 0 (by simp)
  simpa [hne, List.head?_eq_getElem?] using hapart

/-- Lists with isolated exchanges are compared line by line. -/
theorem scriptFrom_eq (h : Isolated old new) (i : Nat) : scriptFrom i i old new = lineByLine i (old.zip new) := by
  induction old generalizing i new with
  | nil =>
    obtain rfl : new = [] := by simpa using h.length_eq.symm
    rw [scriptFrom]
    rfl
  | cons a old ih =>
    obtain ⟨b, new, rfl⟩ : ∃ b rest, new = b :: rest := by
      exact List.exists_cons_of_length_pos (by rw [← h.length_eq]; simp)
    have hrest := ih h.tail (i + 1)
    rw [List.zip_cons_cons, lineByLine_cons, ← hrest, lineRecords, scriptFrom]
    by_cases hab : a = b
    · rw [if_pos hab, if_pos hab]
      rfl
    · rw [if_neg hab, if_neg hab]
      have hhead := h.head?_eq hab
      -- An exchange of the last line has nothing after it to agree on; any other one has the next line.
      cases old with
      | nil =>
        obtain rfl : new = [] := by simpa using hhead.symm
        split
        · rw [scriptFrom]
          rfl
        · next hsync =>
          rw [sync?_singleton] at hsync
          cases hsync
      | cons c old =>
        obtain ⟨new, rfl⟩ := List.head?_eq_some_iff.1 hhead.symm
        split
        · next hsync =>
          rw [sync?_cons_cons] at hsync
          cases hsync
        · next hsync =>
          rw [sync?_cons_cons] at hsync
          cases hsync
          rfl

end Isolated

/-- Each side has one line for each pair. -/
theorem length_linesOn_lineByLine (side : Side) (i : Nat) (pairs : List (Text × Text)) :
    (linesOn side (lineByLine i pairs)).length = pairs.length := by
  induction pairs generalizing i with
  | nil => rfl
  | cons pair rest ih =>
    have hone : (linesOn side (lineRecords i pair)).length = 1 := by
      unfold lineRecords
      split <;> cases side <;> rfl
    rw [lineByLine_cons, linesOn_append, List.length_append, hone, ih, List.length_cons, Nat.add_comm]

/-- A script is cut between two lines where no edit follows, because the second record of an exchange is an edit. -/
theorem exists_cut {i n : Nat} {pairs : List (Text × Text)} (h : n = 0 ∨ ¬ IsEditAt (lineByLine i pairs) n) :
    ∃ m ≤ pairs.length, (lineByLine i pairs).take n = lineByLine i (pairs.take m) := by
  induction pairs generalizing i n with
  | nil => exact ⟨0, Nat.le_refl 0, by simp [lineByLine]⟩
  | cons pair rest ih =>
    by_cases hzero : n = 0
    · exact ⟨0, Nat.zero_le _, by simp [hzero, lineByLine]⟩
    · have hnone := h.resolve_left hzero
      rw [lineByLine_cons] at hnone ⊢
      have hlong : (lineRecords i pair).length ≤ n := by
        by_contra hshort
        apply hnone
        unfold lineRecords at hshort ⊢
        split at hshort
        · rw [List.length_singleton] at hshort
          omega
        · next hne =>
          obtain rfl : n = 1 := by
            rw [List.length_cons, List.length_singleton] at hshort
            omega
          simp [IsEditAt, hne, Change.isEdit]
      obtain ⟨k, rfl⟩ := Nat.exists_eq_add_of_le hlong
      have hnext : ¬ IsEditAt (lineByLine (i + 1) rest) k := by
        rwa [IsEditAt, List.getElem?_append_right (by omega), Nat.add_sub_cancel_left] at hnone
      obtain ⟨m, hm, htake⟩ := ih (.inr hnext)
      refine ⟨m + 1, Nat.succ_le_succ hm, ?_⟩
      rw [List.take_length_add_append, htake, List.take_succ_cons, lineByLine_cons]

theorem Block.Frames.start_eq_zero_or {changes : List Change} {b : Block} (h : b.Frames changes) :
    b.start = 0 ∨ ¬ IsEditAt changes b.start := by
  have hcontext : context = 3 := rfl
  have hbefore := h.before
  have hle := h.first_le
  have hordered := h.ordered
  by_contra hedit
  rw [not_or, Classical.not_not] at hedit
  have hfirst := (h.inside b.start (Block.has_iff.2 (by omega)) hedit.2).1
  omega

theorem Block.not_isEditAt_stop {changes : List Change} {run : List Nat} (h : run ∈ runs changes) :
    ¬ IsEditAt changes (Block.of changes run).stop := by
  intro hedit
  have hcontext : context = 3 := rfl
  have hle := (ends_bound (pairwise_of_mem_runs h) (ends_mem (ne_nil_of_mem_runs h)).2).1
  have hlength := hedit.lt_length
  have hstop : (Block.of changes run).stop = (ends run).2 + context + 1 := by
    simp only [Block.of] at hlength ⊢
    omega
  have hmem := mem_run_of_near h hedit (by omega) (by omega)
  have hlast := (ends_bound (pairwise_of_mem_runs h) hmem).2
  omega

theorem Hunk.eq_ofLines {hunk : Hunk} {pairs : List (Text × Text)} {a b : Nat}
    (hstart : ∀ side, (hunk.range side).start = a + 1) (hcount : ∀ side, (hunk.range side).count = b - a)
    (hbody : hunk.body = (lineByLine a ((pairs.take b).drop a)).map Change.render) :
    hunk = Hunk.ofLines pairs a b := by
  obtain ⟨oldStart, oldCount, newStart, newCount, body⟩ := hunk
  obtain rfl : oldStart = a + 1 := hstart .old
  obtain rfl : newStart = a + 1 := hstart .new
  obtain rfl : oldCount = b - a := hcount .old
  obtain rfl : newCount = b - a := hcount .new
  obtain rfl : body = _ := hbody
  rfl

/-- The records between two cuts are those of the lines between them. -/
theorem slice_lineByLine {pairs : List (Text × Text)} {start stop a b : Nat} (hle : start ≤ stop)
    (ha : a ≤ pairs.length) (hb : b ≤ pairs.length)
    (hstart : (lineByLine 0 pairs).take start = lineByLine 0 (pairs.take a))
    (hstop : (lineByLine 0 pairs).take stop = lineByLine 0 (pairs.take b)) :
    a ≤ b ∧ ((lineByLine 0 pairs).take stop).drop start = lineByLine a ((pairs.take b).drop a) := by
  have hsplit := take_eq_append_slice (lineByLine 0 pairs) hle
  have hab : a ≤ b := by
    have hlines := congrArg (fun records => (linesOn .old records).length) hsplit
    simp only [linesOn_append, List.length_append, hstart, hstop, length_linesOn_lineByLine] at hlines
    rw [List.length_take_of_le ha, List.length_take_of_le hb] at hlines
    omega
  have hsame := calc (lineByLine 0 pairs).take start ++ ((lineByLine 0 pairs).take stop).drop start
      = (lineByLine 0 pairs).take stop := hsplit.symm
    _ = lineByLine 0 (pairs.take a ++ (pairs.take b).drop a) := by rw [hstop, ← take_eq_append_slice pairs hab]
    _ = (lineByLine 0 pairs).take start ++ lineByLine a ((pairs.take b).drop a) := by
      rw [lineByLine_append, hstart, List.length_take_of_le ha, Nat.zero_add]
  exact ⟨hab, List.append_cancel_left hsame⟩

/-- The hunks of a line by line script show whole lines, the same ones on both sides. -/
theorem exists_eq_ofLines {pairs : List (Text × Text)} (hnumbered : NumberedFrom (fun _ => 0) (lineByLine 0 pairs))
    {hunk : Hunk} (h : hunk ∈ hunks (lineByLine 0 pairs)) :
    ∃ a b, a < b ∧ b ≤ pairs.length ∧ hunk = Hunk.ofLines pairs a b := by
  rw [hunks_eq, List.mem_map] at h
  obtain ⟨run, hrun, rfl⟩ := h
  have hshows := Block.shows_of hnumbered hrun
  have hframes := Block.frames_of hrun
  have hordered := hframes.ordered
  have hle := hframes.first_le
  obtain ⟨a, ha, hstart⟩ := exists_cut hframes.start_eq_zero_or
  obtain ⟨b, hb, hstop⟩ := exists_cut (.inr (Block.not_isEditAt_stop hrun))
  generalize Block.of (lineByLine 0 pairs) run = block at hshows hordered hle hstart hstop
  obtain ⟨hab, hslice⟩ := slice_lineByLine (by omega) ha hb hstart hstop
  have hlines : ((pairs.take b).drop a).length = b - a := by
    rw [List.length_drop, List.length_take_of_le hb]
  refine ⟨a, b, ?_, hb, Hunk.eq_ofLines (fun side => ?_) (fun side => ?_) (by rw [hshows.body, hslice])⟩
  · -- A hunk without lines would have no record, but it has an edit.
    refine Nat.lt_of_le_of_ne hab fun heq => ?_
    have hnone : ((lineByLine 0 pairs).take block.stop).drop block.start = [] := by
      rw [hslice, List.eq_nil_of_length_eq_zero (hlines.trans (by omega))]
      rfl
    rw [List.drop_eq_nil_iff, List.length_take_of_le hordered.2.2] at hnone
    omega
  · rw [hshows.start, hstart, length_linesOn_lineByLine, List.length_take_of_le ha, Nat.add_comm]
  · rw [hshows.count, hshows.body, ← length_linesOn_eq_countP, hslice, length_linesOn_lineByLine, hlines]

/-- Between lists with isolated exchanges the script has one record for each line that stays, and for each line
that does not its removal followed by the addition of its counterpart. The diff shows the hunks of this script, so
each hunk shows the same lines of both sides, and marks only those that differ. -/
theorem script_of_isolated_is_line_by_line (path : Text) {old new : List Text} (h : Isolated old new) :
    script old new = lineByLine 0 (old.zip new) ∧
      (old ≠ new → unified path old new = Text.unlines (("--- a/".toList ++ path) :: ("+++ b/".toList ++ path) ::
        (hunks (script old new)).flatMap Hunk.lines)) ∧
      ∀ hunk ∈ hunks (script old new), ∃ a b, a < b ∧ b ≤ old.length ∧ hunk = Hunk.ofLines (old.zip new) a b := by
  have hscript : script old new = lineByLine 0 (old.zip new) := h.scriptFrom_eq 0
  refine ⟨hscript, fun hne => by rw [unified, diffLines_of_ne hne], fun hunk hhunk => ?_⟩
  have hnumbered := numbered_script old new
  rw [hscript] at hhunk hnumbered
  obtain ⟨a, b, hab, hb, heq⟩ := exists_eq_ofLines hnumbered hhunk
  rw [List.length_zip, ← h.length_eq, Nat.min_self] at hb
  exact ⟨a, b, hab, hb, heq⟩

/-- Lines that repeat: the new first line is like the second one, which both sides have. -/
def stripedPage : List Text :=
  ["a", "b", "a"].map String.toList

def plainPage : List Text :=
  ["b", "b", "b"].map String.toList

theorem script_of_isolated_is_line_by_line_in_stripedPage :
    Isolated stripedPage plainPage ∧
      script stripedPage plainPage =
        [.removed 0 ['a'], .added 0 ['b'], .same 1 1 ['b'], .removed 2 ['a'], .added 2 ['b']] ∧
      unified ['p'] stripedPage plainPage = "--- a/p\n+++ b/p\n@@ -1,3 +1,3 @@\n-a\n+b\n b\n-a\n+b".toList ∧
      ∀ hunk ∈ hunks (script stripedPage plainPage), ∃ a b, a < b ∧ b ≤ 3 ∧
        hunk = Hunk.ofLines (stripedPage.zip plainPage) a b := by
  have hisolated : Isolated stripedPage plainPage := ⟨by decide, by decide⟩
  obtain ⟨hscript, hunified, hhunks⟩ := script_of_isolated_is_line_by_line ['p'] hisolated
  refine ⟨hisolated, hscript.trans (by decide), (hunified (by decide)).trans ?_, hhunks⟩
  rw [hscript]
  decide +kernel

end TagStamp.Diff
