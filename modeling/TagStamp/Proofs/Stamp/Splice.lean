import Mathlib.Data.List.TakeDrop
import TagStamp.Proofs.Tag.FlatScan
import TagStamp.Proofs.Tag.Opening
import TagStamp.Stamp.Pass

namespace TagStamp.Stamp

namespace Span

/-- The span that a part of a text takes up, given the text before it. -/
def ofPart (p u : Text) : Span :=
  ⟨(Text.position p).2, (Text.position (p ++ u)).1, (Text.position (p ++ u)).2⟩

/-- A tag takes up its extent, counted on the text that begins with it. -/
theorem ofTag_lines_append (p q : Text) :
    ofTag (Text.lines (p ++ q)) (Text.position p).1 (Text.position p).2 =
      ofPart p (q.take (Tag.extent q)) := by
  rw [ofTag, Tag.close?_lines_append]
  unfold Tag.extent
  cases hline : ({} : Tag.Scan).line 0 q with
  | inl n =>
    obtain ⟨u, v, s, rfl, hn, -⟩ := Tag.Scan.exists_of_line_inl hline
    have htake : (u ++ '>' :: v).take (n + 1) = u ++ ['>'] := by
      simp [hn, List.take_append, List.take_of_length_le]
    have hleft : (u ++ '>' :: v).take n = u := by rw [hn, Nat.zero_add, List.take_left]
    simp only [htake, hleft, ofPart, ← List.append_assoc, Text.position_append (p ++ u) ['>']]
    rfl
  | inr s =>
    have htake : q.take (Text.firstLine q).length = Text.firstLine q :=
      List.prefix_iff_eq_take.1 (List.takeWhile_prefix _) |>.symm
    simp only [htake, ofPart, Text.position_append, Text.getD_lines_append,
      Text.advance_of_notMem (Text.notMem_firstLine q), List.length_append]
    rw [Text.position_eq]

private theorem text_ofPart (p u v : Text) :
    (ofPart p u).text (Text.lines (p ++ u ++ v)) (Text.position p).1 = u := by
  have hfirst := Text.getD_lines_append p (u ++ v)
  rw [← List.append_assoc] at hfirst
  by_cases hmem : '\n' ∈ u
  · -- The part goes over several lines: its own lines are the pieces that are joined.
    have hlines := Text.lines_eq_cons u
    have hne : (Text.position (p ++ u)).1 ≠ (Text.position p).1 := by
      rw [Text.position_append]
      exact (Text.advance_fst_of_mem hmem _).ne'
    have hlast := Text.lastLine_append p u
    rw [if_pos hmem] at hlast
    have hmiddle : ((Text.lines (p ++ u ++ v)).take (Text.position (p ++ u)).1).drop
        ((Text.position p).1 + 1) = (Text.lines u).tail.dropLast := by
      rw [Text.take_lines_append, ← List.dropLast_drop_eq_drop_dropLast, Text.drop_lines_append]
    have hend : ((Text.lines (p ++ u ++ v)).getD (Text.position (p ++ u)).1 []).take
        (Text.position (p ++ u)).2 = Text.lastLine u := by
      rw [Text.getD_lines_append, hlast, Text.position_eq, hlast, List.take_left]
    have hstart : (Text.lastLine p ++ Text.firstLine (u ++ v)).drop (Text.position p).2 = Text.firstLine u := by
      rw [Text.position_eq, List.drop_left, Text.firstLine_append_of_mem hmem]
    have hwhole : Text.firstLine u :: ((Text.lines u).tail.dropLast ++ [Text.lastLine u]) = Text.lines u := by
      have hdropLast := Text.dropLast_lines_append_lastLine u
      rw [hlines, List.dropLast_cons_of_ne_nil (Text.tail_lines_ne_nil hmem)] at hdropLast
      rw [← List.cons_append, hdropLast, ← hlines]
    simp only [text, ofPart, if_neg hne, hfirst, hstart, hmiddle, hend, hwhole]
    exact Text.unlines_lines u
  · have hstop : Text.position (p ++ u) = ((Text.position p).1, (Text.position p).2 + u.length) := by
      rw [Text.position_append, Text.advance_of_notMem hmem]
    simp only [text, ofPart, hstop, if_true, hfirst, Text.firstLine_append_of_notMem hmem]
    rw [Text.position_eq]
    simp [List.take_append]

/-- Exchanging a span of the lines is exchanging the text it takes up. -/
theorem replace_ofPart (p u v x : Text) :
    (ofPart p u).replace (Text.lines (p ++ u ++ v)) (Text.position p).1 x = Text.lines (p ++ x ++ v) := by
  have hbefore : ((Text.lines (p ++ u ++ v)).getD (Text.position p).1 []).take (Text.position p).2 =
      Text.lastLine p := by
    rw [List.append_assoc, Text.getD_lines_append, Text.position_eq, List.take_left]
  have hafter : ((Text.lines (p ++ u ++ v)).getD (Text.position (p ++ u)).1 []).drop
      (Text.position (p ++ u)).2 = Text.firstLine v := by
    rw [Text.getD_lines_append, Text.position_eq, List.drop_left]
  have htake : (Text.lines (p ++ u ++ v)).take (Text.position p).1 = (Text.lines p).dropLast := by
    rw [List.append_assoc, Text.take_lines_append]
  have hdrop := Text.drop_lines_append (p ++ u) v
  simp only [replace, ofPart, hbefore, hafter, htake, hdrop]
  rw [Text.lines_append_right (p ++ x) v, List.append_assoc p x, Text.lines_append_left p]
  simp

end Span

/-- Line of a target, counted from zero. -/
def Target.lineIndex (t : Target) : Nat :=
  (t.line - 1).toNat

/-- The bracket that a target leads to on its line. -/
def bracket? (lines : List Text) (t : Target) : Option Nat :=
  t.tagName.chars?.bind (Tag.start? (lines.getD t.lineIndex []) t.column)

namespace Target

/-- The text has the line of the target. -/
def InRange (lines : List Text) (t : Target) : Prop :=
  1 ≤ t.line ∧ t.lineIndex < lines.length

instance (lines : List Text) (t : Target) : Decidable (t.InRange lines) :=
  inferInstanceAs (Decidable (1 ≤ t.line ∧ t.lineIndex < lines.length))

/-- The text in which a target looks for its identifier: the tag from the bracket on that the target leads
to, or from the start of its line where it leads to none. -/
def tagText (lines : List Text) (t : Target) : Text :=
  (Span.ofTag lines t.lineIndex ((Stamp.bracket? lines t).getD 0)).text lines t.lineIndex

theorem lt_length_of_bracket? {lines : List Text} {t : Target} {k : Nat}
    (h : Stamp.bracket? lines t = some k) : k < (lines.getD t.lineIndex []).length := by
  obtain ⟨name, -, hstart⟩ := Option.bind_eq_some_iff.1 h
  have hchar := Tag.getElem?_of_bracketNear (Tag.start?_eq_some_iff.1 hstart).1
  exact (List.getElem?_eq_some_iff.1 hchar).1

theorem inRange_of_bracket? {lines : List Text} {t : Target} {k : Nat} (hline : 1 ≤ t.line)
    (h : Stamp.bracket? lines t = some k) : t.InRange lines := by
  refine ⟨hline, ?_⟩
  have hlong := lt_length_of_bracket? h
  by_contra hout
  rw [List.getD_eq_getElem?_getD, List.getElem?_eq_none (by omega)] at hlong
  simp at hlong

theorem ofTag_of_position {p q : Text} {t : Target}
    (hposition : Text.position p = (t.lineIndex, (Stamp.bracket? (Text.lines (p ++ q)) t).getD 0)) :
    Span.ofTag (Text.lines (p ++ q)) t.lineIndex ((Stamp.bracket? (Text.lines (p ++ q)) t).getD 0) =
      Span.ofPart p (q.take (Tag.extent q)) := by
  have hspan := Span.ofTag_lines_append p q
  rw [hposition] at hspan
  exact hspan

/-- A target that leads to the end of a prefix selects the tag after it. -/
theorem tagText_of_position {p q : Text} {t : Target}
    (hposition : Text.position p = (t.lineIndex, (Stamp.bracket? (Text.lines (p ++ q)) t).getD 0)) :
    t.tagText (Text.lines (p ++ q)) = q.take (Tag.extent q) := by
  have htext := Span.text_ofPart p (q.take (Tag.extent q)) (q.drop (Tag.extent q))
  rw [List.append_assoc, List.take_append_drop, hposition] at htext
  rw [tagText, ofTag_of_position hposition, htext]

/-- Every target whose line is there leads to the end of a prefix. -/
theorem InRange.exists_split {text : Text} {t : Target} (h : t.InRange (Text.lines text)) :
    ∃ p q, text = p ++ q ∧
      Text.position p = (t.lineIndex, (Stamp.bracket? (Text.lines text) t).getD 0) := by
  apply Text.exists_prefix_at text h.2
  cases hbracket : Stamp.bracket? (Text.lines text) t with
  | none => exact Nat.zero_le _
  | some k => exact Nat.le_of_lt (lt_length_of_bracket? hbracket)

end Target

/-- What becomes of a target whose line is there is decided by the text it selects. -/
theorem place_eq {lines : List Text} {t : Target} (h : t.InRange lines) :
    place lines t =
      match Attribute.assign (t.tagText lines) idAttribute t.agentId
        ((bracket? lines t).map fun _ => 1 + t.tagName.length) with
      | .unplaced => .unlocated
      | .kept => .kept
      | .updated x =>
        .placed ((Span.ofTag lines t.lineIndex ((bracket? lines t).getD 0)).replace lines t.lineIndex x)
          (.updated x)
      | .inserted x malformed =>
        .placed ((Span.ofTag lines t.lineIndex ((bracket? lines t).getD 0)).replace lines t.lineIndex x)
          (.inserted x malformed) := by
  have hinside : ¬ (t.line < 1 ∨ lines.length ≤ (t.line - 1).toNat) := by
    have hline := h.1
    have hindex := h.2
    rw [Target.lineIndex] at hindex
    omega
  rw [place, if_neg hinside]
  simp only [Target.tagText, bracket?, Target.lineIndex]
  split <;> simp_all

theorem place_of_not_inRange {lines : List Text} {t : Target} (h : ¬ t.InRange lines) :
    place lines t = .outOfRange := by
  have houtside : t.line < 1 ∨ lines.length ≤ (t.line - 1).toNat := by
    rw [Target.InRange, Target.lineIndex] at h
    omega
  rw [place, if_pos houtside]

/-- What an edit of the tag between two parts of a text leads to. -/
def Placement.ofEdit (p v : Text) : Attribute.Edit → Placement
  | .unplaced => .unlocated
  | .kept => .kept
  | .updated x => .placed (Text.lines (p ++ x ++ v)) (.updated x)
  | .inserted x malformed => .placed (Text.lines (p ++ x ++ v)) (.inserted x malformed)

/-- A target that leads to the end of a prefix edits the tag there, and nothing else of the text. Where
no bracket is found, the prefix ends with the line before. -/
theorem place_lines_append {p : Text} {t : Target} (q : Text) (hline : 1 ≤ t.line)
    (hposition : Text.position p = (t.lineIndex, ((bracket? (Text.lines (p ++ q)) t).getD 0))) :
    place (Text.lines (p ++ q)) t =
      Placement.ofEdit p (q.drop (Tag.extent q))
        (Attribute.assign (q.take (Tag.extent q)) idAttribute t.agentId
          ((bracket? (Text.lines (p ++ q)) t).map fun _ => 1 + t.tagName.length)) := by
  have hrange : t.InRange (Text.lines (p ++ q)) := by
    refine ⟨hline, ?_⟩
    have hinside := Text.position_fst_lt_length_lines p q
    rwa [hposition] at hinside
  have hreplace := Span.replace_ofPart p (q.take (Tag.extent q)) (q.drop (Tag.extent q))
  simp only [List.append_assoc, List.take_append_drop, hposition] at hreplace
  rw [place_eq hrange, Target.tagText_of_position hposition, Target.ofTag_of_position hposition]
  cases Attribute.assign (q.take (Tag.extent q)) idAttribute t.agentId
      ((bracket? (Text.lines (p ++ q)) t).map fun _ => 1 + t.tagName.length) with
  | unplaced => rfl
  | kept => rfl
  | updated x => simp [Placement.ofEdit, hreplace]
  | inserted x malformed => simp [Placement.ofEdit, hreplace]

/-- Whatever the targets, the lines of a pass are those of a text. -/
theorem Pass.exists_text_step {p : Pass} {text : Text} (h : p.lines = Text.lines text) (t : Target) :
    ∃ text', (p.step t).lines = Text.lines text' := by
  by_cases hrange : t.InRange p.lines
  · rw [h] at hrange
    obtain ⟨before, q, rfl, hposition⟩ := hrange.exists_split
    have hplace := place_lines_append q hrange.1 hposition
    rw [← h] at hplace
    unfold step
    rw [hplace]
    cases Attribute.assign (q.take (Tag.extent q)) idAttribute t.agentId
        ((bracket? p.lines t).map fun _ => 1 + t.tagName.length) with
    | unplaced => exact ⟨before ++ q, h⟩
    | kept => exact ⟨before ++ q, h⟩
    | updated x => exact ⟨_, rfl⟩
    | inserted x malformed => exact ⟨_, rfl⟩
  · refine ⟨text, ?_⟩
    rw [step, place_of_not_inRange hrange]
    exact h

theorem Pass.exists_text_foldl {p : Pass} {text : Text} (h : p.lines = Text.lines text)
    (targets : List Target) : ∃ text', (targets.foldl Pass.step p).lines = Text.lines text' := by
  induction targets generalizing p text with
  | nil => exact ⟨text, h⟩
  | cons t rest ih =>
    obtain ⟨text', hstep⟩ := p.exists_text_step h t
    exact ih hstep

end TagStamp.Stamp
