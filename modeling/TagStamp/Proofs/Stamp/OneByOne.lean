import Mathlib.Data.List.Nodup
import TagStamp.Proofs.Stamp.Run
import TagStamp.Proofs.Stamp.Splice

namespace TagStamp.Stamp

/-- Whether a target is reported at the given line and column. -/
def Target.isAt (line column : Int) (t : Target) : Bool :=
  t.line == line && t.column == column

@[simp]
theorem Target.isAt_iff {line column : Int} {t : Target} :
    t.isAt line column = true ↔ t.line = line ∧ t.column = column := by
  simp [isAt]

/-- The targets from the bottom up, and from right to left on a line; those at one position in the order in
which they are given. -/
structure Arranges (targets ordered : List Target) : Prop where
  descending : ordered.Pairwise fun a b => b.line < a.line ∨ b.line = a.line ∧ b.column ≤ a.column
  stable : ∀ line column, ordered.filter (Target.isAt line column) = targets.filter (Target.isAt line column)

theorem mem_of_filter_eq {xs ys : List Target}
    (h : ∀ line column, xs.filter (Target.isAt line column) = ys.filter (Target.isAt line column))
    {t : Target} (ht : t ∈ xs) : t ∈ ys := by
  have hmem : t ∈ xs.filter (Target.isAt t.line t.column) := List.mem_filter.2 ⟨ht, by simp⟩
  rw [h] at hmem
  exact List.mem_of_mem_filter hmem

/-- There is only one such arrangement. The first targets of two of them are at one position, because each
stands somewhere in the other arrangement, and at this position both begin with the same target. -/
theorem eq_of_descending {xs ys : List Target}
    (hxs : xs.Pairwise fun a b => b.line < a.line ∨ b.line = a.line ∧ b.column ≤ a.column)
    (hys : ys.Pairwise fun a b => b.line < a.line ∨ b.line = a.line ∧ b.column ≤ a.column)
    (h : ∀ line column, xs.filter (Target.isAt line column) = ys.filter (Target.isAt line column)) :
    xs = ys := by
  induction xs generalizing ys with
  | nil =>
    symm
    rw [List.eq_nil_iff_forall_not_mem]
    intro t ht
    exact List.not_mem_nil (mem_of_filter_eq (fun line column => (h line column).symm) ht)
  | cons x xs ih =>
    cases ys with
    | nil => exact absurd (mem_of_filter_eq h List.mem_cons_self) List.not_mem_nil
    | cons y ys =>
      rw [List.pairwise_cons] at hxs hys
      have hx := mem_of_filter_eq h (t := x) List.mem_cons_self
      have hy := mem_of_filter_eq (fun line column => (h line column).symm) (t := y) List.mem_cons_self
      have hposition : y.line = x.line ∧ y.column = x.column := by
        obtain rfl | hx := List.mem_cons.1 hx
        · exact ⟨rfl, rfl⟩
        obtain rfl | hy := List.mem_cons.1 hy
        · exact ⟨rfl, rfl⟩
        have hyx := hys.1 x hx
        have hxy := hxs.1 y hy
        omega
      have hfirst := h x.line x.column
      rw [List.filter_cons_of_pos (by simp), List.filter_cons_of_pos (by simpa using hposition),
        List.cons.injEq] at hfirst
      obtain ⟨rfl, -⟩ := hfirst
      congr 1
      refine ih hxs.2 hys.2 fun line column => ?_
      have hall := h line column
      rw [List.filter_cons, List.filter_cons] at hall
      split at hall
      · exact List.tail_eq_of_cons_eq hall
      · exact hall

/-- Sorting keeps the targets at one position in their order. -/
theorem filter_inOrder (targets : List Target) (line column : Int) :
    (Target.inOrder targets).filter (Target.isAt line column) = targets.filter (Target.isAt line column) := by
  have hlevel : (targets.filter (Target.isAt line column)).Pairwise fun a b => a.precedes b = true := by
    refine List.pairwise_of_forall_mem_list fun a ha b hb => ?_
    have hfirst := Target.isAt_iff.1 (List.mem_filter.1 ha).2
    have hsecond := Target.isAt_iff.1 (List.mem_filter.1 hb).2
    rw [Target.precedes_iff]
    omega
  have hsub : (targets.filter (Target.isAt line column)).Sublist (Target.inOrder targets) :=
    List.sublist_mergeSort Target.precedes_trans Target.precedes_total hlevel List.filter_sublist
  have hfilter := hsub.filter (Target.isAt line column)
  rw [List.filter_filter] at hfilter
  simp only [Bool.and_self] at hfilter
  exact (hfilter.eq_of_length ((inOrder_perm targets).filter _).length_eq.symm).symm

theorem arranges_inOrder (targets : List Target) : Arranges targets (Target.inOrder targets) where
  descending := (pairwise_inOrder targets).imp Target.precedes_iff.1
  stable := filter_inOrder targets

theorem Arranges.eq_inOrder {targets ordered : List Target} (h : Arranges targets ordered) :
    ordered = Target.inOrder targets := by
  refine eq_of_descending h.descending (arranges_inOrder targets).descending fun line column => ?_
  rw [h.stable, filter_inOrder]

/-- Where no two targets are at one position, the order in which they are given does not matter. -/
theorem inOrder_of_perm {targets permuted : List Target}
    (hapart : (targets.map fun t => (t.line, t.column)).Nodup) (hperm : permuted.Perm targets) :
    Target.inOrder permuted = Target.inOrder targets := by
  refine List.Perm.eq_of_pairwise ?_ (pairwise_inOrder permuted) (pairwise_inOrder targets)
    ((inOrder_perm permuted).trans (hperm.trans (inOrder_perm targets).symm))
  intro a b ha hb hab hba
  have ha : a ∈ targets := hperm.mem_iff.1 ((inOrder_perm permuted).mem_iff.1 ha)
  have hb : b ∈ targets := (inOrder_perm targets).mem_iff.1 hb
  rw [Target.precedes_iff] at hab hba
  refine List.inj_on_of_nodup_map hapart ha hb ?_
  rw [Prod.mk.injEq]
  omega

/-- Runs a further target on the text that a result holds, and adds up what the runs count and log. -/
def Result.next (r : Result) (t : Target) : Result :=
  let further := run r.text [t]
  { text := further.text
    applied := r.applied + further.applied
    skipped := r.skipped + further.skipped
    log := r.log ++ further.log }

/-- Runs the targets one at a time, each on the text that the one before it left. -/
def runEach (source : Text) (targets : List Target) : Result :=
  targets.foldl Result.next { text := source, applied := 0, skipped := 0, log := [] }

namespace Pass

/-- What a pass has come to, as a result. -/
def result (p : Pass) : Result where
  text := Text.unlines p.lines
  applied := p.applied
  skipped := p.skipped
  log := p.log

/-- A step does the same to the lines whatever was counted and logged before. -/
theorem step_eq (p : Pass) (t : Target) :
    p.step t =
      { lines := (({ lines := p.lines } : Pass).step t).lines
        applied := p.applied + (({ lines := p.lines } : Pass).step t).applied
        skipped := p.skipped + (({ lines := p.lines } : Pass).step t).skipped
        log := p.log ++ (({ lines := p.lines } : Pass).step t).log } := by
  unfold step
  cases place p.lines t with
  | outOfRange => simp [note]
  | unlocated => simp [note]
  | kept => simp
  | placed lines edit => simp

end Pass

theorem run_eq_result (source : Text) (targets : List Target) :
    run source targets = ((Target.inOrder targets).foldl Pass.step { lines := Text.lines source }).result := by
  have htext := text_run source targets
  rw [Pass.result, ← htext]
  rfl

theorem run_singleton (source : Text) (t : Target) :
    run source [t] = (({ lines := Text.lines source } : Pass).step t).result := by
  rw [run_eq_result, Target.inOrder, List.mergeSort_singleton, List.foldl_cons, List.foldl_nil]

namespace Pass

/-- A step is a run on the text that the lines make up. -/
theorem result_step {p : Pass} {text : Text} (h : p.lines = Text.lines text) (t : Target) :
    (p.step t).result = p.result.next t := by
  have htext : p.result.text = text := by rw [result, h, Text.unlines_lines]
  rw [Result.next, htext, run_singleton, ← h, step_eq]
  rfl

/-- A pass is a sequence of runs. -/
theorem result_foldl_step {p : Pass} {text : Text} (h : p.lines = Text.lines text) (targets : List Target) :
    (targets.foldl step p).result = targets.foldl Result.next p.result := by
  induction targets generalizing p text with
  | nil => rfl
  | cons t rest ih =>
    obtain ⟨text', hstep⟩ := p.exists_text_step h t
    rw [List.foldl_cons, List.foldl_cons, ih hstep, result_step h]

end Pass

theorem run_eq_runEach_inOrder (source : Text) (targets : List Target) :
    run source targets = runEach source (Target.inOrder targets) := by
  have hstart : ({ lines := Text.lines source } : Pass).result = ⟨source, 0, 0, []⟩ := by
    rw [Pass.result, Text.unlines_lines]
  rw [run_eq_result, Pass.result_foldl_step (p := { lines := Text.lines source }) rfl, hstart]
  rfl

/-- One run over all targets leaves, counts and logs the same as runs over single targets, from the bottom up
and from right to left, where targets at one position keep their order; if no two targets are at one
position, the order in which they are given is of no consequence. -/
theorem run_is_sequence_of_single_runs (source : Text) (targets : List Target) :
    (∃ ordered, Arranges targets ordered) ∧
      (∀ ordered, Arranges targets ordered → run source targets = runEach source ordered) ∧
      ((targets.map fun t => (t.line, t.column)).Nodup →
        ∀ permuted : List Target, permuted.Perm targets → run source permuted = run source targets) := by
  refine ⟨⟨_, arranges_inOrder targets⟩, fun ordered hordered => ?_, fun hapart permuted hperm => ?_⟩
  · rw [hordered.eq_inOrder]
    exact run_eq_runEach_inOrder source targets
  · rw [run_eq_runEach_inOrder, run_eq_runEach_inOrder, inOrder_of_perm hapart hperm]

/-- A page with a tag on each of two lines. -/
def twoTags : Text :=
  "<a>\n<b>".toList

/-- A target for the tag in the first line. -/
def upper (agentId : String) : Target :=
  { agentId := agentId.toList, line := 1, column := 1, type := "a".toList }

/-- A target for the tag in the second line. -/
def lower : Target :=
  { agentId := "y".toList, line := 2, column := 1, type := "b".toList }

/-- Two targets for one tag: the later one has the last word. -/
theorem run_is_sequence_in_twoTags :
    Arranges [upper "x", lower, upper "z"] [lower, upper "x", upper "z"] ∧
      run twoTags [upper "x", lower, upper "z"] = runEach twoTags [lower, upper "x", upper "z"] ∧
      (runEach twoTags [lower, upper "x", upper "z"]).text =
        "<a data-agent-id=\"z\">\n<b data-agent-id=\"y\">".toList ∧
      (runEach twoTags [lower, upper "x", upper "z"]).applied = 3 ∧
      run twoTags [upper "x", lower] = run twoTags [lower, upper "x"] := by
  have harranges : Arranges [upper "x", lower, upper "z"] [lower, upper "x", upper "z"] := by
    refine ⟨by decide, fun line column => ?_⟩
    by_cases hline : line = 2
    · simp [upper, lower, Target.isAt, List.filter_cons, hline]
    · simp [upper, lower, Target.isAt, List.filter_cons, Ne.symm hline]
  have hsequence := (run_is_sequence_of_single_runs twoTags [upper "x", lower, upper "z"]).2.1 _ harranges
  have hswap := (run_is_sequence_of_single_runs twoTags [lower, upper "x"]).2.2 (by decide) _
    (List.Perm.swap lower (upper "x") [])
  refine ⟨harranges, hsequence, ?_, ?_, hswap⟩
  · simp only [runEach, Result.next, List.foldl_cons, List.foldl_nil, run_singleton]
    decide +kernel
  · simp only [runEach, Result.next, List.foldl_cons, List.foldl_nil, run_singleton]
    decide +kernel

end TagStamp.Stamp
