import TagStamp.Proofs.Diff.Sides

namespace TagStamp.Diff

variable {old new : List Text} {i j m n : Nat} {c c' : Nat × Nat} {changes records : List Change}

/-- One round from cursors into both lists: the records that it makes, and the cursors after it. -/
inductive Round (old new : List Text) : Nat × Nat → List Change → Nat × Nat → Prop
  | same {i j : Nat} {line : Text} (hold : old[i]? = some line) (hnew : new[j]? = some line) :
      Round old new (i, j) [.same i j line] (i + 1, j + 1)
  | skip {i j m n : Nat} {a b : Text} (hold : old[i]? = some a) (hnew : new[j]? = some b) (hne : a ≠ b)
      (hsync : sync? (old.drop i) (new.drop j) = some (m, n)) :
      Round old new (i, j) (removals i ((old.drop i).take m) ++ additions j ((new.drop j).take n)) (i + m, j + n)

/-- A number of rounds up to where no further one is possible. What is left of both lists is then removed and
added. -/
inductive Rounds (old new : List Text) : Nat × Nat → Nat → List Change → Prop
  | rest {i j : Nat} (hend : ∀ records c, ¬ Round old new (i, j) records c) :
      Rounds old new (i, j) 0 (removals i (old.drop i) ++ additions j (new.drop j))
  | round {c c' : Nat × Nat} {count : Nat} {records changes : List Change} (hround : Round old new c records c')
      (hrounds : Rounds old new c' count changes) : Rounds old new c (count + 1) (records ++ changes)

/-- An agreement is within both lists, behind one of the cursors, and at the same line. -/
theorem sync?_drop (h : sync? (old.drop i) (new.drop j) = some (m, n)) :
    i + m < old.length ∧ j + n < new.length ∧ 0 < m + n ∧ old[i + m]? = new[j + n]? := by
  obtain ⟨hm, hn⟩ := sync?_lt h
  obtain ⟨line, hold, hnew⟩ := sync?_agrees h
  rw [List.length_drop] at hm hn
  rw [List.getElem?_drop] at hold hnew
  exact ⟨by omega, by omega, sync?_pos h, hold.trans hnew.symm⟩

/-- A round moves one of the cursors forward, and none of them past the end. -/
theorem Round.advances (h : Round old new c records c') :
    c.1 + c.2 < c'.1 + c'.2 ∧ c'.1 ≤ old.length ∧ c'.2 ≤ new.length := by
  cases h with
  | same hold hnew =>
    have hi := (List.getElem?_eq_some_iff.1 hold).1
    have hj := (List.getElem?_eq_some_iff.1 hnew).1
    simp only
    omega
  | skip hold hnew hne hsync =>
    obtain ⟨hm, hn, hpos, -⟩ := sync?_drop hsync
    simp only
    omega

/-- There are no more rounds than lines left. -/
theorem Rounds.count_le {count : Nat} (h : Rounds old new c count changes) (hold : c.1 ≤ old.length)
    (hnew : c.2 ≤ new.length) : c.1 + c.2 + count ≤ old.length + new.length := by
  induction h with
  | rest hend =>
    simp only at hold hnew ⊢
    omega
  | round hround hrounds ih =>
    obtain ⟨hmoved, hold', hnew'⟩ := hround.advances
    have hrest := ih hold' hnew'
    omega

/-- A round begins at a line of each side, and these are equal or are followed by an agreement. -/
theorem Round.exists_lines (h : Round old new (i, j) records c) :
    ∃ a b, old[i]? = some a ∧ new[j]? = some b ∧ (a = b ∨ (sync? (old.drop i) (new.drop j)).isSome = true) := by
  cases h with
  | same hold hnew => exact ⟨_, _, hold, hnew, .inl rfl⟩
  | skip hold hnew hne hsync => exact ⟨_, _, hold, hnew, .inr (by rw [hsync]; rfl)⟩

/-- The last records are those for what is left of both lists. -/
theorem Rounds.of_drop {o n : List Text} (hold : old.drop i = o) (hnew : new.drop j = n)
    (hend : ∀ a b, o.head? = some a → n.head? = some b → a ≠ b ∧ sync? o n = none) :
    Rounds old new (i, j) 0 (removals i o ++ additions j n) := by
  subst hold hnew
  apply Rounds.rest
  intro records c hround
  obtain ⟨a, b, ha, hb, hgoes⟩ := hround.exists_lines
  rw [← List.head?_drop] at ha hb
  obtain ⟨hne, hsync⟩ := hend a b ha hb
  simp [hne, hsync] at hgoes

/-- The script for what is left is made in rounds. -/
theorem exists_rounds_scriptFrom (old new : List Text) (i j : Nat) :
    ∃ count, Rounds old new (i, j) count (scriptFrom i j (old.drop i) (new.drop j)) := by
  generalize hold : old.drop i = o
  generalize hnew : new.drop j = n
  have hline {lines rest : List Text} {line : Text} {k : Nat} (h : lines.drop k = line :: rest) :
      lines[k]? = some line := by
    rw [← List.head?_drop, h, List.head?_cons]
  fun_induction scriptFrom i j o n with
  | case1 i j n =>
    -- the old lines have run out
    exact ⟨0, Rounds.of_drop hold hnew (by simp)⟩
  | case2 i j o hne =>
    have hrest := Rounds.of_drop hold hnew (by simp)
    rw [additions, List.append_nil] at hrest
    exact ⟨0, hrest⟩
  | case3 i j o a n ih =>
    have htail {lines rest : List Text} {k : Nat} (h : lines.drop k = a :: rest) : lines.drop (k + 1) = rest := by
      rw [← List.tail_drop, h, List.tail_cons]
    obtain ⟨count, hrounds⟩ := ih (htail hold) (htail hnew)
    exact ⟨count + 1, .round (.same (hline hold) (hline hnew)) hrounds⟩
  | case4 i j a o b n hne hsync =>
    refine ⟨0, Rounds.of_drop hold hnew ?_⟩
    simp [hne, hsync]
  | case5 i j a o b n hne m k hsync ih =>
    obtain ⟨count, hrounds⟩ := ih (by rw [← List.drop_drop, hold]) (by rw [← List.drop_drop, hnew])
    have hround := Round.skip (hline hold) (hline hnew) hne (by rw [hold, hnew]; exact hsync)
    rw [hold, hnew] at hround
    exact ⟨count + 1, .round hround hrounds⟩

/-- The numbers of a side, read in order. -/
theorem filterMap_index?_of_numbered {start : Side → Nat} (h : NumberedFrom start changes) (side : Side) :
    changes.filterMap side.index? = List.range' (start side) (linesOn side changes).length := by
  induction changes generalizing start with
  | nil => rfl
  | cons c rest ih =>
    obtain ⟨hnumber, hrest⟩ := h
    rw [List.filterMap_cons, linesOn_cons, ih hrest]
    cases hindex : side.index? c with
    | none => simp [Change.lineOn?, hindex]
    | some k =>
      have hk := hnumber side k hindex
      simp [Change.lineOn?, hindex, hk, List.range'_succ]

/-- The number of a record is that of its line. -/
theorem getElem?_of_numbered {start : Side → Nat} (h : NumberedFrom start changes) {side : Side} {c : Change}
    (hc : c ∈ changes) {k : Nat} (hk : side.index? c = some k) :
    start side ≤ k ∧ (linesOn side changes)[k - start side]? = some c.line := by
  induction changes generalizing start with
  | nil => cases hc
  | cons first rest ih =>
    obtain ⟨hnumber, hrest⟩ := h
    rw [linesOn_cons]
    obtain rfl | hc := List.mem_cons.1 hc
    · simp [hnumber side k hk, Change.lineOn?, hk]
    · obtain ⟨hle, hline⟩ := ih hrest hc
      refine ⟨by omega, ?_⟩
      rw [List.getElem?_append_right (by omega)]
      rw [← hline]
      congr 1
      omega

theorem index?_filterMap_script (side : Side) (old new : List Text) :
    (script old new).filterMap side.index? = List.range (side.pick old new).length := by
  have hindices := filterMap_index?_of_numbered (numbered_script old new) side
  rwa [linesOn_script, ← List.range_eq_range'] at hindices

/-- A record of a script names its line on every side that has it. -/
theorem getElem?_of_mem_script (side : Side) {c : Change} (hc : c ∈ script old new) {k : Nat}
    (hk : side.index? c = some k) : (side.pick old new)[k]? = some c.line := by
  have hline := (getElem?_of_numbered (numbered_script old new) hc hk).2
  rwa [linesOn_script] at hline

/-- The records for lines that both sides have at the same place. -/
def sameRecords (lines : List Text) : List Change :=
  lines.zipIdx.map fun record => .same record.2 record.2 record.1

/-- What both sides begin with is passed line by line. -/
theorem scriptFrom_append (i : Nat) (common old new : List Text) :
    scriptFrom i i (common ++ old) (common ++ new) =
      ((common.zipIdx i).map fun record => .same record.2 record.2 record.1) ++
        scriptFrom (i + common.length) (i + common.length) old new := by
  induction common generalizing i with
  | nil => simp
  | cons line rest ih =>
    rw [List.cons_append, List.cons_append, scriptFrom, if_pos rfl, ih]
    simp [Nat.add_assoc, Nat.add_comm 1]

private theorem sameRecords_prefix_script {common : List Text} (hold : common <+: old) (hnew : common <+: new) :
    sameRecords common <+: script old new := by
  obtain ⟨old, rfl⟩ := hold
  obtain ⟨new, rfl⟩ := hnew
  rw [script, scriptFrom_append]
  exact List.prefix_append _ _

/-- The matching always ends, and with a valid script. Whenever both sides are searched for the next agreement, the
one that is found is within both lists, not before the cursors, behind one of them, and at equal lines; so the
script is made in no more rounds than there are lines. Its records go through the lines of both sides in order and
leave out none, it joins equal lines only, and all that both sides begin with is recorded as the same. -/
theorem script_is_valid (old new : List Text) :
    (∀ i j m n, sync? (old.drop i) (new.drop j) = some (m, n) →
      i + m < old.length ∧ j + n < new.length ∧ 0 < m + n ∧ old[i + m]? = new[j + n]?) ∧
    (∃ count ≤ old.length + new.length, Rounds old new (0, 0) count (script old new)) ∧
    (script old new).filterMap Change.old? = List.range old.length ∧
    (script old new).filterMap Change.new? = List.range new.length ∧
    (∀ i j line, .same i j line ∈ script old new → old[i]? = some line ∧ new[j]? = some line) ∧
    ∀ common, common <+: old → common <+: new → sameRecords common <+: script old new := by
  refine ⟨fun i j m n => sync?_drop, ?_, index?_filterMap_script .old old new, index?_filterMap_script .new old new,
    fun i j line hmem => ⟨?_, ?_⟩, fun common => sameRecords_prefix_script⟩
  · obtain ⟨count, hrounds⟩ := exists_rounds_scriptFrom old new 0 0
    have hcount := hrounds.count_le (Nat.zero_le _) (Nat.zero_le _)
    exact ⟨count, by omega, hrounds⟩
  · exact getElem?_of_mem_script .old hmem rfl
  · exact getElem?_of_mem_script .new hmem rfl

/-- A page, before a line was added after the first one and the last one was exchanged. -/
def draftPage : List Text :=
  ["a", "b", "c"].map String.toList

def finalPage : List Text :=
  ["a", "x", "b", "d"].map String.toList

theorem script_is_valid_for_draftPage :
    sync? (draftPage.drop 1) (finalPage.drop 1) = some (0, 1) ∧ draftPage[1]? = finalPage[2]? ∧
      (∃ count ≤ 7, Rounds draftPage finalPage (0, 0) count (script draftPage finalPage)) ∧
      script draftPage finalPage =
        [.same 0 0 ['a'], .added 1 ['x'], .same 1 2 ['b'], .removed 2 ['c'], .added 3 ['d']] ∧
      (draftPage[1]? = some ['b'] ∧ finalPage[2]? = some ['b']) ∧
      sameRecords [['a']] <+: script draftPage finalPage := by
  obtain ⟨hsync, hrounds, -, -, hsame, hcommon⟩ := script_is_valid draftPage finalPage
  have hfound : sync? (draftPage.drop 1) (finalPage.drop 1) = some (0, 1) := by decide
  have hscript : script draftPage finalPage =
      [.same 0 0 ['a'], .added 1 ['x'], .same 1 2 ['b'], .removed 2 ['c'], .added 3 ['d']] := by
    decide +kernel
  exact ⟨hfound, (hsync 1 1 0 1 hfound).2.2.2, hrounds, hscript, hsame 1 2 ['b'] (by simp [hscript]),
    hcommon [['a']] (by decide) (by decide)⟩

end TagStamp.Diff
