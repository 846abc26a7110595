import TagStamp.Proofs.Stamp.Frame

namespace TagStamp.Stamp

open Attribute

/-- A target that is applied exchanges one line for another. -/
theorem exists_set_of_placed {x : Text} {t : Target} {lines : List Text} {edit : Edit}
    (h : place (Text.lines x) t = .placed lines edit) (hid : '\n' ∉ t.agentId) :
    ∃ line, lines = (Text.lines x).set (t.editLine (Text.lines x)) line := by
  obtain ⟨y, before, old, new, after, rfl, hedit, hline⟩ := exists_edit_of_placed h
  obtain ⟨hold, hnew⟩ := hedit.exchange.feed_notMem hid
  rw [← hline, hedit.was, hedit.becomes]
  exact ⟨_, Text.lines_exchange before hold hnew after⟩

theorem Exchange.ne {t : Target} {old new : Text} (h : Exchange t old new) : old ≠ new := by
  cases h with
  | insertion => simp [Target.written]
  | update hquote hfree hother =>
    intro heq
    simp only [render, List.append_assoc, List.append_cancel_left_eq, List.cons_append, List.cons.injEq] at heq
    obtain ⟨-, rfl, heq⟩ := heq
    exact hother (List.append_cancel_right heq)

theorem Exchange.render_within {t : Target} {old new : Text} (h : Exchange t old new) :
    render idAttribute t.agentId <:+: new := by
  cases h with
  | insertion => exact ⟨[' '], [], by simp [Target.written]⟩
  | update hquote hfree hother => exact List.infix_rfl

/-- The line that a target is applied to has its identifier, and is not what it was. -/
theorem line_of_placed {x : Text} {t : Target} {lines : List Text} {edit : Edit}
    (h : place (Text.lines x) t = .placed lines edit) (hid : '\n' ∉ t.agentId) :
    render idAttribute t.agentId <:+: lines.getD (t.editLine (Text.lines x)) [] ∧
      lines.getD (t.editLine (Text.lines x)) [] ≠ (Text.lines x).getD (t.editLine (Text.lines x)) [] := by
  obtain ⟨y, before, old, new, after, rfl, hedit, hline⟩ := exists_edit_of_placed h
  obtain ⟨hold, hnew⟩ := hedit.exchange.feed_notMem hid
  have hat {part : Text} (hpart : '\n' ∉ part) :
      (Text.lines (before ++ part ++ after)).getD (Text.position before).1 [] =
        Text.lastLine before ++ part ++ Text.firstLine after := by
    rw [List.append_assoc, Text.getD_lines_append, Text.firstLine_append_of_notMem hpart, List.append_assoc]
  rw [← hline, hedit.was, hedit.becomes, hat hold, hat hnew]
  constructor
  · exact hedit.exchange.render_within.trans ⟨_, _, rfl⟩
  · simpa using hedit.exchange.ne.symm

namespace Pass

/-- Lines that the edits of a pass are placed on, one for each target that is applied. -/
def editLines : Pass → List Target → List Nat
  | _, [] => []
  | p, t :: rest =>
    match place p.lines t with
    | .placed _ _ => t.editLine p.lines :: (p.step t).editLines rest
    | _ => (p.step t).editLines rest

/-- One target: its edit changes a line, or nothing is changed. -/
theorem step_line_cases {p : Pass} {x : Text} (hp : p.lines = Text.lines x) {t : Target} (hid : '\n' ∉ t.agentId) :
    (∃ line, (p.step t).lines = p.lines.set (t.editLine p.lines) line ∧ (p.step t).applied = p.applied + 1 ∧
        ∀ rest, p.editLines (t :: rest) = t.editLine p.lines :: (p.step t).editLines rest) ∨
      (p.step t).lines = p.lines ∧ (p.step t).applied = p.applied ∧
        ∀ rest, p.editLines (t :: rest) = (p.step t).editLines rest := by
  cases hplace : place p.lines t with
  | placed lines edit =>
    obtain ⟨hlines, happlied, -⟩ := step_of_placed hplace
    have hedit := hplace
    rw [hp] at hedit
    obtain ⟨line, hline⟩ := exists_set_of_placed hedit hid
    rw [← hp] at hline
    exact .inl ⟨line, hlines.trans hline, happlied, fun rest => by simp [editLines, hplace]⟩
  | outOfRange | unlocated | kept =>
    exact .inr ⟨by simp [step, hplace, note], by simp [step, hplace, note], by simp [editLines, hplace]⟩

/-- A pass keeps the number of lines, and the lines that no edit is placed on. -/
theorem keeps_lines_foldl {targets : List Target} (hids : ∀ t ∈ targets, '\n' ∉ t.agentId) {p : Pass} {x : Text}
    (hp : p.lines = Text.lines x) :
    (targets.foldl step p).lines.length = p.lines.length ∧
      (targets.foldl step p).applied = p.applied + (p.editLines targets).length ∧
      ∀ i ∉ p.editLines targets, (targets.foldl step p).lines[i]? = p.lines[i]? := by
  induction targets generalizing p x with
  | nil => exact ⟨rfl, rfl, fun _ _ => rfl⟩
  | cons t rest ih =>
    rw [List.forall_mem_cons] at hids
    obtain ⟨y, hy⟩ := p.exists_text_step hp t
    obtain ⟨hlength, hcount, hkept⟩ := ih hids.2 hy
    rw [List.foldl_cons]
    obtain ⟨line, hlines, happlied, hedits⟩ | ⟨hlines, happlied, hedits⟩ := step_line_cases hp hids.1
    · rw [hedits, List.length_cons]
      refine ⟨by rw [hlength, hlines, List.length_set], by omega, fun i hi => ?_⟩
      rw [List.mem_cons, not_or] at hi
      rw [hkept i hi.2, hlines, List.getElem?_set_ne (Ne.symm hi.1)]
    · rw [hedits]
      exact ⟨hlength.trans (congrArg _ hlines), by omega, fun i hi => (hkept i hi).trans (by rw [hlines])⟩

/-- Of a line with edits on it, the last one leaves its identifier, and the only one leaves a change. -/
theorem edited_line_foldl {targets : List Target} (hids : ∀ t ∈ targets, '\n' ∉ t.agentId) {p : Pass} {x : Text}
    (hp : p.lines = Text.lines x) {i : Nat} (hi : i ∈ p.editLines targets) :
    (∃ t ∈ targets, render idAttribute t.agentId <:+: (targets.foldl step p).lines.getD i []) ∧
      ((p.editLines targets).count i = 1 → (targets.foldl step p).lines.getD i [] ≠ p.lines.getD i []) := by
  induction targets generalizing p x with
  | nil => cases hi
  | cons t rest ih =>
    rw [List.forall_mem_cons] at hids
    rw [List.foldl_cons]
    obtain ⟨y, hy⟩ := p.exists_text_step hp t
    cases hplace : place p.lines t with
    | placed lines edit =>
      have hlines := (step_of_placed hplace).1
      have hedit := hplace
      rw [hp] at hedit
      obtain ⟨line, hset⟩ := exists_set_of_placed hedit hids.1
      obtain ⟨hwithin, hchanged⟩ := line_of_placed hedit hids.1
      rw [← hp, ← hlines] at hwithin hchanged hset
      rw [editLines, hplace] at hi ⊢
      dsimp only at hi ⊢
      by_cases hlater : i ∈ (p.step t).editLines rest
      · obtain ⟨⟨u, hu, hu'⟩, honce⟩ := ih hids.2 hy hlater
        refine ⟨⟨u, List.mem_cons_of_mem t hu, hu'⟩, fun hcount => ?_⟩
        have hpos := List.count_pos_iff.2 hlater
        have hne : t.editLine p.lines ≠ i := by
          rintro rfl
          rw [List.count_cons_self] at hcount
          omega
        rw [List.count_cons_of_ne hne] at hcount
        have hkept : (p.step t).lines.getD i [] = p.lines.getD i [] := by
          rw [hset, List.getD_eq_getElem?_getD, List.getElem?_set_ne hne, ← List.getD_eq_getElem?_getD]
        rw [← hkept]
        exact honce hcount
      · obtain rfl := (List.mem_cons.1 hi).resolve_right hlater
        have hkept := (keeps_lines_foldl hids.2 hy).2.2 _ hlater
        rw [List.getD_eq_getElem?_getD, hkept, ← List.getD_eq_getElem?_getD]
        exact ⟨⟨t, List.mem_cons_self, hwithin⟩, fun _ => hchanged⟩
    | outOfRange | unlocated | kept =>
      have hlines : (p.step t).lines = p.lines := by simp [step, hplace, note]
      rw [editLines, hplace] at hi ⊢
      obtain ⟨⟨u, hu, hwithin⟩, honce⟩ := ih hids.2 hy hi
      rw [hlines] at honce
      exact ⟨⟨u, List.mem_cons_of_mem t hu, hwithin⟩, honce⟩

end Pass

/-- Lines that the edits of a run are placed on, one for each target that is applied. -/
def editLines (source : Text) (targets : List Target) : List Nat :=
  Pass.editLines { lines := Text.lines source } (Target.inOrder targets)

/-- A run whose identifiers have no line feeds keeps the number of lines, and the lines that no edit is
placed on. -/
theorem keeps_lines_run {targets : List Target} (hids : ∀ t ∈ targets, '\n' ∉ t.agentId) (source : Text) :
    (Text.lines (run source targets).text).length = (Text.lines source).length ∧
      (editLines source targets).length = (run source targets).applied ∧
      ∀ i ∉ editLines source targets, (Text.lines (run source targets).text)[i]? = (Text.lines source)[i]? := by
  have hordered : ∀ t ∈ Target.inOrder targets, '\n' ∉ t.agentId :=
    fun t ht => hids t ((inOrder_perm targets).mem_iff.1 ht)
  have hstart : ({ lines := Text.lines source } : Pass).lines = Text.lines source := rfl
  obtain ⟨hlength, hcount, hkept⟩ := Pass.keeps_lines_foldl hordered hstart
  obtain ⟨z, hz⟩ := Pass.exists_text_foldl hstart (Target.inOrder targets)
  have htext : Text.lines (run source targets).text = Text.lines z := by
    rw [text_run, hz, Text.unlines_lines]
  rw [Nat.zero_add] at hcount
  rw [htext, ← hz]
  exact ⟨hlength, hcount.symm, hkept⟩

/-- A run changes the text if it edits a line only once, or a line that none of the identifiers is in. -/
theorem text_run_ne {targets : List Target} (hids : ∀ t ∈ targets, '\n' ∉ t.agentId) {source : Text} {i : Nat}
    (hi : i ∈ editLines source targets)
    (h : (editLines source targets).count i = 1 ∨
      ∀ t ∈ targets, ¬ render idAttribute t.agentId <:+: (Text.lines source).getD i []) :
    (run source targets).text ≠ source := by
  have hordered : ∀ t ∈ Target.inOrder targets, '\n' ∉ t.agentId :=
    fun t ht => hids t ((inOrder_perm targets).mem_iff.1 ht)
  have hstart : ({ lines := Text.lines source } : Pass).lines = Text.lines source := rfl
  obtain ⟨⟨t, ht, hwithin⟩, honce⟩ := Pass.edited_line_foldl hordered hstart hi
  obtain ⟨z, hz⟩ := Pass.exists_text_foldl hstart (Target.inOrder targets)
  intro hsame
  rw [text_run, hz, Text.unlines_lines] at hsame
  rw [hz, hsame] at hwithin honce
  obtain hcount | habsent := h
  · exact honce hcount rfl
  · exact habsent t ((inOrder_perm targets).mem_iff.1 ht) hwithin

end TagStamp.Stamp
