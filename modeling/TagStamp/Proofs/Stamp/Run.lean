import Mathlib.Data.List.Sort
import TagStamp.Stamp.Pass

namespace TagStamp.Stamp

namespace Pass

theorem step_of_kept {p : Pass} {t : Target} (h : place p.lines t = .kept) :
    p.step t = { p with skipped := p.skipped + 1 } := by
  rw [step, h]

theorem step_of_placed {p : Pass} {t : Target} {lines : List Text} {edit : Attribute.Edit}
    (h : place p.lines t = .placed lines edit) :
    (p.step t).lines = lines ∧ (p.step t).applied = p.applied + 1 ∧ (p.step t).skipped = p.skipped := by
  rw [step, h]
  exact ⟨rfl, rfl, rfl⟩

/-- Only a target that finds its identifier is skipped. -/
theorem step_skipped {p : Pass} {t : Target} (h : place p.lines t ≠ .kept) :
    (p.step t).skipped = p.skipped := by
  unfold step
  cases hplace : place p.lines t with
  | outOfRange => rfl
  | unlocated => rfl
  | kept => exact absurd hplace h
  | placed lines edit => rfl

private theorem skipped_foldl_le (targets : List Target) (p : Pass) :
    (targets.foldl step p).skipped ≤ p.skipped + targets.length := by
  induction targets generalizing p with
  | nil => exact Nat.le_refl _
  | cons t rest ih =>
    have hrest := ih (p.step t)
    have hstep : (p.step t).skipped ≤ p.skipped + 1 := by
      by_cases hkept : place p.lines t = .kept
      · rw [step_of_kept hkept]
      · rw [step_skipped hkept]
        omega
    simp only [List.foldl_cons, List.length_cons]
    omega

theorem foldl_of_kept {targets : List Target} {p : Pass} (h : ∀ t ∈ targets, place p.lines t = .kept) :
    targets.foldl step p = { p with skipped := p.skipped + targets.length } := by
  induction targets generalizing p with
  | nil => rfl
  | cons t rest ih =>
    rw [List.foldl_cons, step_of_kept (h t List.mem_cons_self), ih]
    · simp only [List.length_cons]
      congr 1
      omega
    · intro u hu
      exact h u (List.mem_cons_of_mem t hu)

/-- All targets are skipped exactly if each finds its identifier in the lines as they are. -/
theorem skipped_foldl_eq_iff {targets : List Target} {p : Pass} :
    (targets.foldl step p).skipped = p.skipped + targets.length ↔
      ∀ t ∈ targets, place p.lines t = .kept := by
  constructor
  · intro h
    induction targets generalizing p with
    | nil => simp
    | cons t rest ih =>
      have hrest := skipped_foldl_le rest (p.step t)
      rw [List.foldl_cons, List.length_cons] at h
      have hkept : place p.lines t = .kept := by
        by_contra hnot
        rw [step_skipped hnot] at hrest
        omega
      rw [step_of_kept hkept] at h
      have hothers := ih (p := { p with skipped := p.skipped + 1 }) (by simp only at h ⊢; omega)
      intro u hu
      rw [List.mem_cons] at hu
      obtain rfl | hu := hu
      · exact hkept
      · exact hothers u hu
  · intro h
    rw [foldl_of_kept h]

theorem step_applied (p : Pass) (t : Target) :
    (p.step t).applied = p.applied ∧ (p.step t).lines = p.lines ∨ (p.step t).applied = p.applied + 1 := by
  unfold step
  cases place p.lines t with
  | outOfRange => exact .inl ⟨rfl, rfl⟩
  | unlocated => exact .inl ⟨rfl, rfl⟩
  | kept => exact .inl ⟨rfl, rfl⟩
  | placed lines edit => exact .inr rfl

private theorem le_applied_foldl (targets : List Target) (p : Pass) :
    p.applied ≤ (targets.foldl step p).applied := by
  induction targets generalizing p with
  | nil => exact Nat.le_refl _
  | cons t rest ih =>
    have hrest := ih (p.step t)
    have hstep := step_applied p t
    simp only [List.foldl_cons]
    omega

/-- Only an applied target changes the lines. -/
theorem lines_foldl_of_applied {targets : List Target} {p : Pass}
    (h : (targets.foldl step p).applied = p.applied) : (targets.foldl step p).lines = p.lines := by
  induction targets generalizing p with
  | nil => rfl
  | cons t rest ih =>
    have hrest := le_applied_foldl rest (p.step t)
    simp only [List.foldl_cons] at h ⊢
    obtain ⟨happlied, hlines⟩ | happlied := step_applied p t
    · rw [ih (by omega), hlines]
    · omega

end Pass

theorem text_run (source : Text) (targets : List Target) :
    (run source targets).text =
      Text.unlines ((Target.inOrder targets).foldl Pass.step { lines := Text.lines source }).lines := by
  simp only [run]
  split
  · next hzero => rw [Pass.lines_foldl_of_applied hzero, Text.unlines_lines]
  · rfl

theorem inOrder_perm (targets : List Target) : (Target.inOrder targets).Perm targets :=
  List.mergeSort_perm targets Target.precedes

/-- A target comes before those further up, and before those on its line that are not further right. -/
theorem Target.precedes_iff {a b : Target} :
    a.precedes b = true ↔ b.line < a.line ∨ b.line = a.line ∧ b.column ≤ a.column := by
  simp only [precedes, Bool.or_eq_true, decide_eq_true_eq, Bool.and_eq_true, beq_iff_eq]

theorem Target.precedes_trans (a b c : Target) (hab : a.precedes b = true) (hbc : b.precedes c = true) :
    a.precedes c = true := by
  rw [precedes_iff] at *
  omega

theorem Target.precedes_total (a b : Target) : (a.precedes b || b.precedes a) = true := by
  rw [Bool.or_eq_true, precedes_iff, precedes_iff]
  omega

/-- The targets are edited from the bottom up, and from right to left on a line. -/
theorem pairwise_inOrder (targets : List Target) :
    (Target.inOrder targets).Pairwise fun a b => a.precedes b = true :=
  List.pairwise_mergeSort Target.precedes_trans Target.precedes_total targets

/-- Targets that are given in the order of the edits stay in it. -/
theorem inOrder_of_pairwise {targets : List Target} (h : targets.Pairwise fun a b => a.precedes b = true) :
    Target.inOrder targets = targets :=
  List.mergeSort_of_pairwise h

/-- A run that skips every target changes nothing. -/
theorem run_of_kept {source : Text} {targets : List Target}
    (h : ∀ t ∈ targets, place (Text.lines source) t = .kept) :
    run source targets = { text := source, applied := 0, skipped := targets.length, log := [] } := by
  have hkept : ∀ t ∈ Target.inOrder targets, place (Text.lines source) t = .kept :=
    fun t ht => h t ((inOrder_perm targets).mem_iff.1 ht)
  have hfold := Pass.foldl_of_kept (p := { lines := Text.lines source }) hkept
  simp [run, hfold, (inOrder_perm targets).length_eq]

theorem skipped_run_eq_iff {source : Text} {targets : List Target} :
    (run source targets).skipped = targets.length ↔ ∀ t ∈ targets, place (Text.lines source) t = .kept := by
  have hfold := @Pass.skipped_foldl_eq_iff (Target.inOrder targets) { lines := Text.lines source }
  simp only [Nat.zero_add, (inOrder_perm targets).length_eq, (inOrder_perm targets).mem_iff] at hfold
  exact hfold

end TagStamp.Stamp
