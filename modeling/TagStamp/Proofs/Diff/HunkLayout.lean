import Mathlib.Data.List.SplitBy
import TagStamp.Proofs.Diff.RoundTrip

namespace TagStamp.Diff

/-- The record of that index is an edit. -/
def IsEditAt (changes : List Change) (i : Nat) : Prop :=
  ∃ c, changes[i]? = some c ∧ c.isEdit = true

theorem IsEditAt.lt_length {changes : List Change} {i : Nat} (h : IsEditAt changes i) : i < changes.length := by
  obtain ⟨c, hc, -⟩ := h
  exact (List.getElem?_eq_some_iff.1 hc).1

/-- Where a hunk lies in a script. It has the records from `start` on and before `stop`, and of these `first` is
the first edit and `last` the last one. -/
structure Block where
  start : Nat
  first : Nat
  last : Nat
  stop : Nat
deriving DecidableEq, Repr

namespace Block

/-- Whether the record of that index is one of the block. -/
def has (b : Block) (i : Nat) : Bool :=
  b.start ≤ i && i < b.stop

theorem has_iff {b : Block} {i : Nat} : b.has i = true ↔ b.start ≤ i ∧ i < b.stop := by
  simp [has]

/-- The edits of a block are close to each other, and all the context there is stands around them. -/
structure Frames (changes : List Change) (b : Block) : Prop where
  first_edit : IsEditAt changes b.first
  last_edit : IsEditAt changes b.last
  first_le : b.first ≤ b.last
  before : b.first = b.start + min context b.first
  after : b.stop = b.last + 1 + min context (changes.length - (b.last + 1))
  inside : ∀ i, b.has i = true → IsEditAt changes i → b.first ≤ i ∧ i ≤ b.last
  near : ∀ i j, IsEditAt changes i → IsEditAt changes j → b.first ≤ i → i < j → j ≤ b.last →
    (∀ k, i < k → k < j → ¬ IsEditAt changes k) → j ≤ i + 2 * context

/-- A block lies in the script and is not empty. -/
theorem Frames.ordered {changes : List Change} {b : Block} (h : b.Frames changes) :
    b.start ≤ b.first ∧ b.last < b.stop ∧ b.stop ≤ changes.length := by
  have hbefore := h.before
  have hafter := h.after
  have hlast := h.last_edit.lt_length
  omega

/-- A hunk shows the records of a block, and its header tells where they begin and how many there are. -/
structure Shows (changes : List Change) (b : Block) (hunk : Hunk) : Prop where
  body : hunk.body = ((changes.take b.stop).drop b.start).map Change.render
  start : ∀ side, (hunk.range side).start = 1 + (linesOn side (changes.take b.start)).length
  count : ∀ side, (hunk.range side).count =
    hunk.body.countP fun line => line.head? == some ' ' || line.head? == some side.mark

end Block

/-- Two edits that share a hunk. -/
def near (i j : Nat) : Bool :=
  j - i ≤ 2 * context

/-- First and last index of a run. -/
def ends (run : List Nat) : Nat × Nat :=
  (run.headD 0, run.getLastD 0)

/-- The block of a run of edits. -/
def Block.of (changes : List Change) (run : List Nat) : Block where
  start := (ends run).1 - context
  first := (ends run).1
  last := (ends run).2
  stop := min ((ends run).2 + context + 1) changes.length

theorem ends_snd_of_mem_getLast? {run : List Nat} {i : Nat} (h : i ∈ run.getLast?) : (ends run).2 = i := by
  rw [Option.mem_def] at h
  simp [ends, List.getLastD_eq_getLast?, h]

private theorem ends_concat {run : List Nat} (hne : run ≠ []) (i : Nat) : ends (run ++ [i]) = ((ends run).1, i) := by
  obtain ⟨first, rest, rfl⟩ := List.exists_cons_of_ne_nil hne
  rw [ends, List.getLastD_eq_getLast?, List.getLast?_concat]
  rfl

/-- The groups are the runs of near indices. -/
theorem groupsFrom_eq {run : List Nat} (hne : run ≠ []) (hchain : run.IsChain fun i j => near i j = true)
    (rest : List Nat) :
    groupsFrom (ends run).1 (ends run).2 rest = ((run ++ rest).splitBy near).map ends := by
  -- The run is what has been collected so far; only its two ends are kept.
  induction rest generalizing run with
  | nil => rw [groupsFrom, List.append_nil, List.splitBy_of_isChain hne hchain, List.map_singleton]
  | cons index rest ih =>
    rw [groupsFrom]
    split
    · next hnear =>
      have hlonger : (run ++ [index]).IsChain fun i j => near i j = true := by
        refine hchain.append (List.isChain_singleton _) fun i hi j hj => ?_
        rw [ends_snd_of_mem_getLast? hi] at hnear
        cases hj
        exact decide_eq_true hnear
      have hnext := ih (by simp) hlonger
      rwa [ends_concat hne, List.append_assoc] at hnext
    · next hfar =>
      have hsplit : ∀ i ∈ run.getLast?, near i index = false := by
        intro i hi
        rw [ends_snd_of_mem_getLast? hi] at hfar
        exact decide_eq_false hfar
      have hnext := ih (List.cons_ne_nil index []) (List.isChain_singleton index)
      rw [List.splitBy_append_cons rest hsplit, List.splitBy_of_isChain hne hchain]
      exact congrArg (ends run :: ·) hnext

private theorem groups_eq (indices : List Nat) : groups indices = (indices.splitBy near).map ends := by
  cases indices with
  | nil => rfl
  | cons index rest => exact groupsFrom_eq (List.cons_ne_nil _ _) (List.isChain_singleton index) rest

theorem ends_mem {run : List Nat} (hne : run ≠ []) : (ends run).1 ∈ run ∧ (ends run).2 ∈ run := by
  constructor
  · rw [ends, List.headD_eq_head?_getD, List.head?_eq_some_head hne]
    exact List.head_mem hne
  · rw [ends, List.getLastD_eq_getLast?, List.getLast?_eq_some_getLast hne]
    exact List.getLast_mem hne

theorem ends_bound {run : List Nat} (hsorted : run.Pairwise (· < ·)) {i : Nat} (hi : i ∈ run) :
    (ends run).1 ≤ i ∧ i ≤ (ends run).2 := by
  have hle := hsorted.imp Nat.le_of_lt
  have hne := List.ne_nil_of_mem hi
  rw [ends, List.headD_eq_head?_getD, List.head?_eq_some_head hne, List.getLastD_eq_getLast?,
    List.getLast?_eq_some_getLast hne]
  exact ⟨hle.rel_head hi, hle.rel_getLast hi⟩

/-- The edits of a script, divided into those of each hunk. -/
def runs (changes : List Change) : List (List Nat) :=
  (editIndices changes).splitBy near

/-- The edits of one run are all too far before those of another to share a hunk with them. -/
def FarBefore (run run' : List Nat) : Prop :=
  run' ≠ [] ∧ ∀ i ∈ run, ∀ j ∈ run', i + 2 * context < j

instance : Trans FarBefore FarBefore FarBefore where
  trans := by
    rintro run run' run'' ⟨hne, hfar⟩ ⟨hne', hfar'⟩
    obtain ⟨k, hk⟩ := List.exists_mem_of_ne_nil _ hne
    refine ⟨hne', fun i hi j hj => ?_⟩
    have hbefore := hfar i hi k hk
    have hafter := hfar' k hk j hj
    omega

variable {changes : List Change} {run run' : List Nat}

theorem mem_runs_iff {i : Nat} : (∃ run ∈ runs changes, i ∈ run) ↔ IsEditAt changes i := by
  rw [← List.mem_flatten, runs, List.flatten_splitBy, mem_editIndices, IsEditAt]

theorem ne_nil_of_mem_runs (h : run ∈ runs changes) : run ≠ [] :=
  List.ne_nil_of_mem_splitBy h

theorem pairwise_of_mem_runs (h : run ∈ runs changes) : run.Pairwise (· < ·) := by
  have hsorted := pairwise_editIndices changes
  rw [← List.flatten_splitBy near (editIndices changes), List.pairwise_flatten] at hsorted
  exact hsorted.1 run h

theorem pairwise_runs (changes : List Change) : (runs changes).Pairwise FarBefore := by
  rw [← List.isChain_iff_pairwise]
  refine (List.isChain_getLast_head_splitBy near (editIndices changes)).imp_of_mem_imp ?_
  rintro run run' hrun hrun' ⟨hne, hne', hfar⟩
  refine ⟨hne', fun i hi j hj => ?_⟩
  have hlast := ((pairwise_of_mem_runs hrun).imp Nat.le_of_lt).rel_getLast hi
  have hfirst := ((pairwise_of_mem_runs hrun').imp Nat.le_of_lt).rel_head hj
  have hgap : ¬ run'.head hne' - run.getLast hne ≤ 2 * context := of_decide_eq_false hfar
  omega

/-- Two runs are far from each other unless they are the same one. -/
theorem eq_or_farBefore (h : run ∈ runs changes) (h' : run' ∈ runs changes) :
    run = run' ∨ FarBefore run run' ∨ FarBefore run' run := by
  by_cases heq : run = run'
  · exact .inl heq
  · have hpairwise : (runs changes).Pairwise fun run run' => FarBefore run run' ∨ FarBefore run' run :=
      (pairwise_runs changes).imp Or.inl
    have : Std.Symm fun run run' => FarBefore run run' ∨ FarBefore run' run := ⟨fun _ _ => Or.symm⟩
    exact .inr (hpairwise.forall h h' heq)

/-- An edit in reach of a run is one of the run. -/
theorem mem_run_of_near (h : run ∈ runs changes) {i : Nat} (hi : IsEditAt changes i)
    (hfirst : (ends run).1 ≤ i + 2 * context) (hlast : i ≤ (ends run).2 + 2 * context) : i ∈ run := by
  obtain ⟨run', h', hi'⟩ := mem_runs_iff.2 hi
  have hends := ends_mem (ne_nil_of_mem_runs h)
  obtain rfl | ⟨-, hfar⟩ | ⟨-, hfar⟩ := eq_or_farBefore h h'
  · exact hi'
  · have := hfar _ hends.2 i hi'
    omega
  · have := hfar i hi' _ hends.1
    omega

/-- Neighbours in a run are near each other. -/
theorem le_of_neighbours (h : run ∈ runs changes) {i j : Nat} (hi : i ∈ run) (hj : j ∈ run) (hlt : i < j)
    (hnone : ∀ k, i < k → k < j → ¬ IsEditAt changes k) : j ≤ i + 2 * context := by
  have hsorted := pairwise_of_mem_runs h
  have hchain := List.isChain_of_mem_splitBy h
  have hedit : ∀ k ∈ run, IsEditAt changes k := fun k hk => mem_runs_iff.1 ⟨run, h, hk⟩
  obtain ⟨before, after, rfl⟩ := List.append_of_mem hi
  rw [List.pairwise_append, List.pairwise_cons] at hsorted
  obtain ⟨-, ⟨hfollow, hrest⟩, hprecede⟩ := hsorted
  have hafter : j ∈ after := by
    rw [List.mem_append, List.mem_cons] at hj
    obtain hj | rfl | hj := hj
    · have := hprecede j hj i List.mem_cons_self
      omega
    · exact absurd hlt (Nat.lt_irrefl _)
    · exact hj
  -- No edit is between the two, so the one after `i` in the run is `j`.
  obtain ⟨next, others, rfl⟩ := List.exists_cons_of_ne_nil (List.ne_nil_of_mem hafter)
  have hnear : next - i ≤ 2 * context := of_decide_eq_true (List.isChain_append_cons_cons.1 hchain).2.1
  have hnext : ¬ next < j := fun hless =>
    hnone next (hfollow next List.mem_cons_self) hless (hedit next (by simp))
  rw [List.pairwise_cons] at hrest
  rw [List.mem_cons] at hafter
  obtain rfl | hafter := hafter
  · omega
  · exact absurd (hrest.1 j hafter) hnext

theorem Block.frames_of (h : run ∈ runs changes) : (Block.of changes run).Frames changes := by
  have hsorted := pairwise_of_mem_runs h
  have hends := ends_mem (ne_nil_of_mem_runs h)
  have hedit : ∀ k ∈ run, IsEditAt changes k := fun k hk => mem_runs_iff.1 ⟨run, h, hk⟩
  have hlength := (hedit _ hends.2).lt_length
  constructor
  case first_edit => exact hedit _ hends.1
  case last_edit => exact hedit _ hends.2
  case first_le => exact (ends_bound hsorted hends.2).1
  case before =>
    simp only [Block.of]
    omega
  case after =>
    simp only [Block.of]
    omega
  case inside =>
    intro i hhas hi
    rw [has_iff] at hhas
    simp only [Block.of] at hhas
    exact ends_bound hsorted (mem_run_of_near h hi (by omega) (by omega))
  case near =>
    intro i j hi hj hfirst hlt hlast hnone
    simp only [Block.of] at hfirst hlast
    have hi' := mem_run_of_near h hi (by omega) (by omega)
    have hj' := mem_run_of_near h hj (by omega) (by omega)
    exact le_of_neighbours h hi' hj' hlt hnone

/-- The lines of a hunk that a side has are those with a blank or with the mark of the side. -/
theorem length_linesOn_eq_countP (side : Side) (records : List Change) :
    (linesOn side records).length = (records.map Change.render).countP fun line =>
      line.head? == some ' ' || line.head? == some side.mark := by
  rw [← countP_index?_eq, List.countP_map]
  congr 1
  funext c
  cases c <;> cases side <;> rfl

theorem Block.shows_of (hnumbered : NumberedFrom (fun _ => 0) changes) (h : run ∈ runs changes) :
    (Block.of changes run).Shows changes (Hunk.of changes (ends run).1 (ends run).2) := by
  have hle := (ends_bound (pairwise_of_mem_runs h) (ends_mem (ne_nil_of_mem_runs h)).2).1
  have hrange := range_of_numbered hnumbered hle
  have hbody : (Hunk.of changes (ends run).1 (ends run).2).body =
      ((changes.take (Block.of changes run).stop).drop (Block.of changes run).start).map Change.render := by
    rw [Block.of, ← List.take_eq_take_min]
    rfl
  constructor
  case body => exact hbody
  case start =>
    intro side
    rw [hrange, Nat.add_comm]
    rfl
  case count =>
    intro side
    rw [hrange]
    exact length_linesOn_eq_countP side _

theorem hunks_eq (changes : List Change) :
    hunks changes = (runs changes).map fun run => Hunk.of changes (ends run).1 (ends run).2 := by
  rw [hunks, groups_eq, List.map_map]
  rfl

/-- The blocks of different runs have no record in common. -/
theorem pairwise_blocks (changes : List Change) :
    ((runs changes).map (Block.of changes)).Pairwise fun b b' =>
      b.stop ≤ b'.start ∧ b.last + 2 * context < b'.first := by
  rw [List.pairwise_map]
  refine (pairwise_runs changes).imp_of_mem fun {run run'} hrun hrun' hfar => ?_
  have hgap := hfar.2 _ (ends_mem (ne_nil_of_mem_runs hrun)).2 _ (ends_mem (ne_nil_of_mem_runs hrun')).1
  simp only [Block.of]
  omega

private theorem exists_block_of_isEditAt {i : Nat} (h : IsEditAt changes i) :
    ∃ b ∈ (runs changes).map (Block.of changes), b.has i = true := by
  obtain ⟨run, hrun, hi⟩ := mem_runs_iff.2 h
  have hbound := ends_bound (pairwise_of_mem_runs hrun) hi
  have hlength := h.lt_length
  refine ⟨_, List.mem_map_of_mem hrun, Block.has_iff.2 ?_⟩
  simp only [Block.of]
  omega

private theorem countP_eq_one_of_pairwise {blocks : List Block} (hapart : blocks.Pairwise fun b b' => b.stop ≤ b'.start)
    {i : Nat} (h : ∃ b ∈ blocks, b.has i = true) : (blocks.countP fun b => b.has i) = 1 := by
  obtain ⟨b, hb, hhas⟩ := h
  obtain ⟨before, after, rfl⟩ := List.append_of_mem hb
  rw [List.pairwise_append, List.pairwise_cons] at hapart
  obtain ⟨-, ⟨hafter, -⟩, hbefore⟩ := hapart
  have hinside := Block.has_iff.1 hhas
  have hnone : ∀ others : List Block, (∀ b' ∈ others, b.stop ≤ b'.start ∨ b'.stop ≤ b.start) →
      (others.countP fun b' => b'.has i) = 0 := by
    intro others hothers
    rw [List.countP_eq_zero]
    intro b' hb'
    have := hothers b' hb'
    rw [Block.has_iff]
    omega
  rw [List.countP_append, List.countP_cons, hnone before fun b' hb' => .inr (hbefore b' hb' b List.mem_cons_self),
    hnone after fun b' hb' => .inl (hafter b' hb'), if_pos hhas]

/-- The hunks between different lists show blocks of the script. The blocks follow each other without overlap,
and every edit is in exactly one of them. In a block neighbouring edits are at most twice the context apart, and
all the context there is stands before the first and after the last one; from one block to the next the edits are
further apart. The header of a hunk counts the lines of both sides before it and in it. -/
theorem hunks_lie_apart (path : Text) {old new : List Text} (h : old ≠ new) :
    unified path old new = Text.unlines (("--- a/".toList ++ path) :: ("+++ b/".toList ++ path) ::
      (hunks (script old new)).flatMap Hunk.lines) ∧
    ∃ blocks : List Block, blocks ≠ [] ∧
      List.Forall₂ (Block.Shows (script old new)) blocks (hunks (script old new)) ∧
      (∀ b ∈ blocks, b.Frames (script old new)) ∧
      (blocks.Pairwise fun b b' => b.stop ≤ b'.start ∧ b.last + 2 * context < b'.first) ∧
      ∀ i, IsEditAt (script old new) i → (blocks.countP fun b => b.has i) = 1 := by
  refine ⟨by rw [unified, diffLines_of_ne h], (runs (script old new)).map (Block.of (script old new)),
    ?_, ?_, ?_, ?_, ?_⟩
  · intro hnone
    apply h
    rw [← hunks_eq_nil_iff, hunks_eq, List.map_eq_nil_iff]
    exact List.map_eq_nil_iff.1 hnone
  · rw [hunks_eq, List.forall₂_map_left_iff, List.forall₂_map_right_iff, List.forall₂_same]
    exact fun run hrun => Block.shows_of (numbered_script old new) hrun
  · intro b hb
    obtain ⟨run, hrun, rfl⟩ := List.mem_map.1 hb
    exact Block.frames_of hrun
  · exact pairwise_blocks _
  · intro i hi
    exact countP_eq_one_of_pairwise ((pairwise_blocks _).imp And.left) (exists_block_of_isEditAt hi)

/-- Two edits with just as many lines between them as the context of both needs. -/
def shortPage : List Text :=
  ["<p>", "1", "2", "3", "4", "5", "6"].map String.toList

def editedShortPage : List Text :=
  ["<p id>", "1", "2", "3", "4", "5", "6", "</p>"].map String.toList

theorem hunks_lie_apart_in_shortPage :
    hunks (script shortPage editedShortPage) =
        [⟨1, 4, 1, 4, ["-<p>", "+<p id>", " 1", " 2", " 3"].map String.toList⟩,
          ⟨5, 3, 5, 4, [" 4", " 5", " 6", "+</p>"].map String.toList⟩] ∧
      ∃ blocks : List Block, blocks.length = 2 ∧ (∀ b ∈ blocks, b.Frames (script shortPage editedShortPage)) ∧
        (blocks.Pairwise fun b b' => b.stop ≤ b'.start ∧ b.last + 2 * context < b'.first) ∧
        ∀ i, IsEditAt (script shortPage editedShortPage) i → (blocks.countP fun b => b.has i) = 1 := by
  have hhunks : hunks (script shortPage editedShortPage) =
      [⟨1, 4, 1, 4, ["-<p>", "+<p id>", " 1", " 2", " 3"].map String.toList⟩,
        ⟨5, 3, 5, 4, [" 4", " 5", " 6", "+</p>"].map String.toList⟩] := by decide +kernel
  obtain ⟨-, blocks, -, hshows, hframes, hapart, hone⟩ :=
    hunks_lie_apart "p.html".toList (show shortPage ≠ editedShortPage by decide)
  refine ⟨hhunks, blocks, ?_, hframes, hapart, hone⟩
  rw [hshows.length_eq, hhunks]
  rfl

end TagStamp.Diff
