import Mathlib.Data.List.Induction
import Mathlib.Data.List.TakeWhile
import TagStamp.Text.Basic

namespace TagStamp.Text

/-- The part of a text before its first line feed. -/
def firstLine (text : Text) : Text :=
  text.takeWhile (· ≠ '\n')

/-- The part of a text after its last line feed. -/
def lastLine (text : Text) : Text :=
  (lines text).getLastD []

/-- Line and column after reading a text from the given line and column on, all counted from zero. -/
def advance (place : Nat × Nat) : Text → Nat × Nat
  | [] => place
  | c :: rest => advance (if c = '\n' then (place.1 + 1, 0) else (place.1, place.2 + 1)) rest

/-- Line and column at which a text ends. -/
def position (text : Text) : Nat × Nat :=
  advance (0, 0) text

@[simp]
theorem lines_nil : lines [] = [[]] := rfl

theorem lines_ne_nil (text : Text) : lines text ≠ [] :=
  pieces_ne_nil '\n' text

theorem lines_cons_feed (rest : Text) : lines ('\n' :: rest) = [] :: lines rest := by
  simp [lines, pieces]

theorem lines_eq_cons (text : Text) : lines text = firstLine text :: (lines text).tail := by
  induction text with
  | nil => rfl
  | cons c rest ih =>
    by_cases hc : c = '\n'
    · subst hc
      simp [lines_cons_feed, firstLine]
    · simp only [lines] at ih ⊢
      rw [pieces, if_neg hc, ih]
      simp [firstLine, hc]

theorem lines_cons_of_ne {c : Char} (hc : c ≠ '\n') (rest : Text) :
    lines (c :: rest) = (c :: firstLine rest) :: (lines rest).tail := by
  have h := lines_eq_cons rest
  simp only [lines] at h ⊢
  rw [pieces, if_neg hc, h]
  rfl

/-- The last line of the first part and the first line of the second part become one line. -/
theorem lines_append (p q : Text) :
    lines (p ++ q) = (lines p).dropLast ++ (lastLine p ++ firstLine q) :: (lines q).tail := by
  induction p with
  | nil => exact lines_eq_cons q
  | cons c rest ih =>
    have hlines := lines_eq_cons rest
    by_cases hc : c = '\n'
    · subst hc
      rw [List.cons_append, lines_cons_feed, lines_cons_feed, ih]
      simp only [lastLine, lines_cons_feed]
      rw [hlines]
      simp
    · have hfirst := lines_eq_cons (rest ++ q)
      rw [ih] at hfirst
      rw [List.cons_append, lines_cons_of_ne hc, ih]
      -- Whether `rest` has a line feed decides which line the character joins.
      cases htail : (lines rest).tail with
      | nil =>
        rw [htail] at hlines
        simp only [lastLine, hlines, lines_cons_of_ne hc] at hfirst ⊢
        simp_all
      | cons next others =>
        rw [htail] at hlines
        simp only [lastLine, hlines, lines_cons_of_ne hc] at hfirst ⊢
        simp_all

theorem firstLine_of_notMem {text : Text} (h : '\n' ∉ text) : firstLine text = text := by
  rw [firstLine, List.takeWhile_eq_self_iff]
  intro c hc
  simp only [ne_eq, decide_eq_true_eq]
  rintro rfl
  exact h hc

theorem notMem_firstLine (text : Text) : '\n' ∉ firstLine text := by
  intro h
  have := List.mem_takeWhile_imp h
  simp at this

theorem firstLine_append_of_notMem {p : Text} (h : '\n' ∉ p) (q : Text) :
    firstLine (p ++ q) = p ++ firstLine q := by
  rw [firstLine, List.takeWhile_append_of_pos]
  · rfl
  · intro c hc
    simp only [ne_eq, decide_eq_true_eq]
    rintro rfl
    exact h hc

theorem pieces_of_notMem {separator : Char} {text : Text} (h : separator ∉ text) :
    pieces separator text = [text] := by
  induction text with
  | nil => rfl
  | cons c rest ih =>
    simp only [List.mem_cons, not_or] at h
    rw [pieces, if_neg (Ne.symm h.1), ih h.2]

theorem lines_of_notMem {text : Text} (h : '\n' ∉ text) : lines text = [text] :=
  pieces_of_notMem h

/-- No piece holds a separator. -/
theorem notMem_of_mem_pieces {separator : Char} {text piece : Text} (h : piece ∈ pieces separator text) :
    separator ∉ piece := by
  induction text generalizing piece with
  | nil => simp_all [pieces]
  | cons c rest ih =>
    rw [pieces] at h
    split at h
    · rw [List.mem_cons] at h
      obtain rfl | h := h
      · simp
      · exact ih h
    · next hc =>
      obtain ⟨first, others, hpieces⟩ := List.exists_cons_of_ne_nil (pieces_ne_nil separator rest)
      rw [hpieces] at h ih
      rw [List.mem_cons] at h
      obtain rfl | h := h
      · simp [Ne.symm hc, ih List.mem_cons_self]
      · exact ih (List.mem_cons_of_mem _ h)

theorem notMem_of_mem_lines {text line : Text} (h : line ∈ lines text) : '\n' ∉ line :=
  notMem_of_mem_pieces h

/-- A piece ends at the first separator. -/
theorem pieces_append_cons {separator : Char} {piece : Text} (h : separator ∉ piece) (rest : Text) :
    pieces separator (piece ++ separator :: rest) = piece :: pieces separator rest := by
  induction piece with
  | nil => simp [pieces]
  | cons c piece ih =>
    simp only [List.mem_cons, not_or] at h
    rw [List.cons_append, pieces, if_neg (Ne.symm h.1), ih h.2]

/-- Pieces without separators are the pieces of the text they make up. -/
theorem pieces_joined {separator : Char} {all : List Text} (hne : all ≠ [])
    (h : ∀ piece ∈ all, separator ∉ piece) : pieces separator (joined separator all) = all := by
  induction all with
  | nil => exact absurd rfl hne
  | cons piece others ih =>
    rw [List.forall_mem_cons] at h
    cases others with
    | nil => exact pieces_of_notMem h.1
    | cons next others =>
      have hjoin : joined separator (piece :: next :: others) =
          piece ++ separator :: joined separator (next :: others) := rfl
      rw [hjoin, pieces_append_cons h.1, ih (by simp) h.2]

/-- Lines without line feeds are the lines of the text they make up. -/
theorem lines_unlines {all : List Text} (hne : all ≠ []) (h : ∀ line ∈ all, '\n' ∉ line) :
    lines (unlines all) = all :=
  pieces_joined hne h

theorem tail_lines_ne_nil {text : Text} (h : '\n' ∈ text) : (lines text).tail ≠ [] := by
  intro htail
  have hlines := lines_eq_cons text
  rw [htail] at hlines
  have heq := unlines_lines text
  rw [hlines] at heq
  change firstLine text = text at heq
  rw [← heq] at h
  exact notMem_firstLine text h

theorem firstLine_append_of_mem {p : Text} (h : '\n' ∈ p) (q : Text) :
    firstLine (p ++ q) = firstLine p := by
  rw [firstLine, firstLine, List.takeWhile_append, if_neg]
  intro hlength
  exact notMem_firstLine p (by rwa [firstLine, (List.takeWhile_prefix _).eq_of_length hlength])

theorem length_firstLine_lt_of_mem {p : Text} (h : '\n' ∈ p) : (firstLine p).length < p.length := by
  have hstart : firstLine p <+: p := List.takeWhile_prefix _
  refine Nat.lt_of_le_of_ne hstart.length_le fun hlength => ?_
  exact notMem_firstLine p (by rwa [hstart.eq_of_length hlength])

theorem lastLine_append (p q : Text) :
    lastLine (p ++ q) = if '\n' ∈ q then lastLine q else lastLine p ++ q := by
  have hq := lines_eq_cons q
  split
  · next hmem =>
    cases htail : (lines q).tail with
    | nil => exact absurd htail (tail_lines_ne_nil hmem)
    | cons next others =>
      rw [htail] at hq
      simp [lastLine, lines_append, hq, List.getLast?_cons]
  · next hmem =>
    simp [lastLine, lines_append, lines_of_notMem hmem, firstLine_of_notMem hmem]

theorem dropLast_lines_append_lastLine (p : Text) : (lines p).dropLast ++ [lastLine p] = lines p := by
  rw [lastLine, List.getLastD_eq_getLast?, List.getLast?_eq_some_getLast (lines_ne_nil p)]
  exact List.dropLast_concat_getLast (lines_ne_nil p)

theorem notMem_lastLine (p : Text) : '\n' ∉ lastLine p := by
  have hmem : lastLine p ∈ lines p := by
    rw [← dropLast_lines_append_lastLine p]
    simp
  exact notMem_of_mem_lines hmem

private theorem lastLine_of_notMem {p : Text} (h : '\n' ∉ p) : lastLine p = p := by
  simp [lastLine, lines_of_notMem h]

/-- Complete lines at the beginning of a text can be set aside. -/
theorem lines_append_left (p q : Text) : lines (p ++ q) = (lines p).dropLast ++ lines (lastLine p ++ q) := by
  rw [lines_append p q, lines_append (lastLine p) q, lines_of_notMem (notMem_lastLine p),
    lastLine_of_notMem (notMem_lastLine p)]
  rfl

/-- So can the lines after the first one at its end. -/
theorem lines_append_right (p q : Text) : lines (p ++ q) = lines (p ++ firstLine q) ++ (lines q).tail := by
  rw [lines_append p q, lines_append p (firstLine q), lines_of_notMem (notMem_firstLine q)]
  simp [firstLine_of_notMem (notMem_firstLine q)]

private theorem advance_append (place : Nat × Nat) (p q : Text) :
    advance place (p ++ q) = advance (advance place p) q := by
  induction p generalizing place with
  | nil => rfl
  | cons c rest ih => exact ih _

theorem position_append (p q : Text) : position (p ++ q) = advance (position p) q :=
  advance_append (0, 0) p q

/-- A prefix ends on the line that follows its complete lines, after the characters of its last line. -/
theorem position_eq (p : Text) : position p = ((lines p).dropLast.length, (lastLine p).length) := by
  induction p using List.reverseRecOn with
  | nil => rfl
  | append_singleton p c ih =>
    rw [position_append, ih, lines_append, lastLine_append]
    by_cases hc : c = '\n'
    · subst hc
      simp [advance, lines_cons_feed, lastLine]
    · have hmem : '\n' ∉ [c] := by simpa using Ne.symm hc
      simp [advance, hc, Ne.symm hc, lines_of_notMem hmem]

theorem take_lines_append (p q : Text) :
    (lines (p ++ q)).take (position p).1 = (lines p).dropLast := by
  rw [position_eq, lines_append, List.take_left]

theorem getD_lines_append (p q : Text) :
    (lines (p ++ q)).getD (position p).1 [] = lastLine p ++ firstLine q := by
  simp [position_eq, lines_append]

theorem drop_lines_append (p q : Text) :
    (lines (p ++ q)).drop ((position p).1 + 1) = (lines q).tail := by
  rw [position_eq, lines_append, ← List.drop_drop, List.drop_left]
  rfl

/-- Exchanging one part without line feeds for another changes the line that the parts are on. -/
theorem lines_exchange (before : Text) {old new : Text} (hold : '\n' ∉ old) (hnew : '\n' ∉ new) (after : Text) :
    lines (before ++ new ++ after) =
      (lines (before ++ old ++ after)).set (position before).1 (lastLine before ++ new ++ firstLine after) := by
  have hlines {part : Text} (hpart : '\n' ∉ part) : lines (before ++ part ++ after) =
      (lines before).dropLast ++ (lastLine before ++ part ++ firstLine after) :: (lines after).tail := by
    rw [List.append_assoc, lines_append, firstLine_append_of_notMem hpart, lines_append part,
      lines_of_notMem hpart]
    simp
  rw [hlines hold, hlines hnew, position_eq]
  simp

theorem position_fst_lt_length_lines (p q : Text) : (position p).1 < (lines (p ++ q)).length := by
  simp [position_eq, lines_append]

/-- A prefix without line feeds stays on the first line. -/
theorem advance_of_notMem {p : Text} (h : '\n' ∉ p) (place : Nat × Nat) :
    advance place p = (place.1, place.2 + p.length) := by
  induction p generalizing place with
  | nil => rfl
  | cons c rest ih =>
    simp only [List.mem_cons, not_or] at h
    rw [advance, if_neg (Ne.symm h.1), ih h.2]
    simp only [List.length_cons]
    congr 1
    omega

/-- Every line feed leads one line down. -/
theorem advance_fst (p : Text) (place : Nat × Nat) : (advance place p).1 = place.1 + p.count '\n' := by
  induction p generalizing place with
  | nil => rfl
  | cons c rest ih =>
    rw [advance, ih, List.count_cons]
    by_cases hc : c = '\n'
    · simp only [hc, if_true, beq_self_eq_true]
      omega
    · simp [hc]

theorem advance_fst_of_mem {p : Text} (h : '\n' ∈ p) (place : Nat × Nat) :
    place.1 < (advance place p).1 := by
  have hcount := List.count_pos_iff.2 h
  rw [advance_fst]
  omega

/-- Once a line feed was read, the place no longer depends on the column it started from. -/
theorem advance_of_mem {p : Text} (h : '\n' ∈ p) (line column column' : Nat) :
    advance (line, column) p = advance (line, column') p := by
  induction p generalizing column column' with
  | nil => simp at h
  | cons c rest ih =>
    rw [advance, advance]
    by_cases hc : c = '\n'
    · rw [if_pos hc, if_pos hc]
    · rw [if_neg hc, if_neg hc]
      exact ih (by simpa [Ne.symm hc] using h) _ _

/-- Text without line feeds that is put into a prefix moves the end of the prefix to the right if no line
ends between the two, and does not move it otherwise. -/
theorem position_insert (a b : Text) {x : Text} (hx : '\n' ∉ x) :
    position (a ++ x ++ b) =
      if '\n' ∈ b then position (a ++ b) else ((position (a ++ b)).1, (position (a ++ b)).2 + x.length) := by
  rw [position_append, position_append, position_append a b, advance_of_notMem hx]
  split
  · next hb => exact advance_of_mem hb _ _ _
  · next hb =>
    rw [advance_of_notMem hb, advance_of_notMem hb]
    simp only [Prod.mk.injEq, true_and]
    omega

/-- A longer prefix ends further down, or further right on the same line. -/
theorem position_lt_of_append (p : Text) {u : Text} (hu : u ≠ []) :
    (position p).1 < (position (p ++ u)).1 ∨
      (position p).1 = (position (p ++ u)).1 ∧ (position p).2 < (position (p ++ u)).2 := by
  rw [position_append]
  by_cases hmem : '\n' ∈ u
  · exact .inl (advance_fst_of_mem hmem _)
  · right
    have hlength := List.length_pos_iff.2 hu
    rw [advance_of_notMem hmem]
    exact ⟨rfl, by simpa using hlength⟩

/-- Of two prefixes of a text, the one that ends further up is the shorter one, by at least a line feed. -/
theorem exists_gap_of_position_lt {text p p' : Text} (hp : p <+: text) (hp' : p' <+: text)
    (hlt : (position p).1 < (position p').1) : ∃ gap, p' = p ++ gap ∧ '\n' ∈ gap := by
  obtain ⟨gap, rfl⟩ | ⟨gap, rfl⟩ := List.prefix_or_prefix_of_prefix hp hp'
  · refine ⟨gap, rfl, ?_⟩
    by_contra hfree
    rw [position_append, advance_of_notMem hfree] at hlt
    exact Nat.lt_irrefl _ hlt
  · rw [position_append, advance_fst] at hlt
    omega

theorem eq_of_lines_eq {p q : Text} (h : lines p = lines q) : p = q := by
  rw [← unlines_lines p, h, unlines_lines]

/-- Every column of every line, the end of the line included, is where some prefix ends. -/
theorem exists_prefix_at (text : Text) {line column : Nat} (hline : line < (lines text).length)
    (hcolumn : column ≤ ((lines text).getD line []).length) :
    ∃ p q, text = p ++ q ∧ position p = (line, column) := by
  generalize hcurrent : (lines text).getD line [] = current at hcolumn
  have hsplit : lines text = (lines text).take line ++ current :: (lines text).drop (line + 1) := by
    simp [← hcurrent, List.getD_eq_getElem?_getD, hline]
  have hfree : ∀ l ∈ lines text, '\n' ∉ l := fun l hl => notMem_of_mem_lines hl
  have hcurrentFree : '\n' ∉ current := hfree current (by rw [hsplit]; simp)
  have hp : lines (unlines ((lines text).take line ++ [current.take column])) =
      (lines text).take line ++ [current.take column] := by
    apply lines_unlines (by simp)
    intro l hl
    rw [List.mem_append, List.mem_singleton] at hl
    obtain hl | rfl := hl
    · exact hfree l (List.mem_of_mem_take hl)
    · exact fun hmem => hcurrentFree (List.mem_of_mem_take hmem)
  have hq : lines (unlines (current.drop column :: (lines text).drop (line + 1))) =
      current.drop column :: (lines text).drop (line + 1) := by
    apply lines_unlines (by simp)
    intro l hl
    rw [List.mem_cons] at hl
    obtain rfl | hl := hl
    · exact fun hmem => hcurrentFree (List.mem_of_mem_drop hmem)
    · exact hfree l (List.mem_of_mem_drop hl)
  refine ⟨unlines ((lines text).take line ++ [current.take column]),
    unlines (current.drop column :: (lines text).drop (line + 1)), ?_, ?_⟩
  · have hfirst := (lines_eq_cons (unlines (current.drop column :: (lines text).drop (line + 1)))).symm
    rw [hq, List.cons.injEq] at hfirst
    apply eq_of_lines_eq
    rw [lines_append, hp, lastLine, hp, hq, hfirst.1]
    simpa using hsplit
  · rw [position_eq, lastLine, hp]
    simp
    omega

/-- Offset in the flat text of a column of a line: the lines above it take their length and a line feed. -/
def offset (lines : List Text) (line column : Nat) : Nat :=
  ((lines.take line).flatMap fun l => l ++ ['\n']).length + column

private theorem unlines_append_singleton (complete : List Text) (last : Text) :
    unlines (complete ++ [last]) = (complete.flatMap fun l => l ++ ['\n']) ++ last := by
  induction complete with
  | nil => rfl
  | cons l rest ih =>
    have hjoin : unlines (l :: rest ++ [last]) = l ++ '\n' :: unlines (rest ++ [last]) := by
      cases rest <;> rfl
    rw [hjoin, ih]
    simp

theorem offset_position (p q : Text) :
    offset (lines (p ++ q)) (position p).1 (position p).2 = p.length := by
  have hjoin := unlines_append_singleton (lines p).dropLast (lastLine p)
  rw [dropLast_lines_append_lastLine, unlines_lines] at hjoin
  rw [offset, take_lines_append, position_eq, ← List.length_append, ← hjoin]

/-- A line and a column of a text, the end of the line included. -/
def IsPlace (lines : List Text) (place : Nat × Nat) : Prop :=
  place.1 < lines.length ∧ place.2 ≤ (lines.getD place.1 []).length

/-- Every offset of a text is that of one place. -/
theorem position_take_eq_iff (text : Text) (place : Nat × Nat) (n : Nat) :
    n ≤ text.length ∧ position (text.take n) = place ↔
      IsPlace (lines text) place ∧ offset (lines text) place.1 place.2 = n := by
  constructor
  · rintro ⟨hn, rfl⟩
    have hline := position_fst_lt_length_lines (text.take n) (text.drop n)
    have hcolumn := getD_lines_append (text.take n) (text.drop n)
    have hoffset := offset_position (text.take n) (text.drop n)
    rw [List.take_append_drop] at hline hcolumn hoffset
    refine ⟨⟨hline, ?_⟩, hoffset.trans (List.length_take_of_le hn)⟩
    rw [hcolumn, List.length_append, position_eq]
    exact Nat.le_add_right _ _
  · rintro ⟨⟨hline, hcolumn⟩, rfl⟩
    obtain ⟨p, q, rfl, hp⟩ := exists_prefix_at text hline hcolumn
    have hoffset := offset_position p q
    rw [hp] at hoffset
    rw [hoffset, List.take_left]
    exact ⟨by simp, hp⟩

end TagStamp.Text
