import Mathlib.Order.Bounds.Basic
import TagStamp.Proofs.Tag.Whole

namespace TagStamp.Tag

/-- What a text ends inside of: a string with the quote that ends it, and a number of braces. -/
structure Lexer where
  quote : Option Char := none
  escaped : Bool := false
  braces : Nat := 0
deriving DecidableEq, Repr

namespace Lexer

/-- Reads a character. A line feed is one like any other, and a closing brace too many is none. -/
def step (s : Lexer) (c : Char) : Lexer :=
  match s.quote with
  | some quote =>
    if s.escaped then { s with escaped := false }
    else if c = '\\' then { s with escaped := true }
    else if c = quote then { s with quote := none }
    else s
  | none =>
    if c = '\x7b' then { s with braces := s.braces + 1 }
    else if c = '\x7d' then { s with braces := s.braces - 1 }
    else if isQuote c then { s with quote := some c }
    else s

/-- The lexer at the end of a text. -/
def after (text : Text) : Lexer :=
  text.foldl step {}

def isOutside (s : Lexer) : Bool :=
  s.quote.isNone && s.braces == 0

private theorem after_concat (text : Text) (c : Char) : after (text ++ [c]) = (after text).step c := by
  simp [after]

end Lexer

/-- How often a bracket stands in a text outside strings and braces. -/
def seen (bracket : Char) (text : Text) : Nat :=
  (List.range text.length).countP fun k => text[k]? == some bracket && (Lexer.after (text.take k)).isOutside

/-- A tag that starts with the text closes at an offset: a closing bracket outside strings and braces is there,
and up to it there are no more opening brackets than closing ones. -/
def ClosesAt (text : Text) (n : Nat) : Prop :=
  text[n]? = some '>' ∧ (Lexer.after (text.take n)).isOutside = true ∧
    seen '<' (text.take (n + 1)) ≤ seen '>' (text.take (n + 1))

theorem seen_concat (bracket : Char) (text : Text) (c : Char) :
    seen bracket (text ++ [c]) =
      seen bracket text + if c = bracket ∧ (Lexer.after text).isOutside = true then 1 else 0 := by
  have hbefore : ((List.range text.length).countP fun k =>
      (text ++ [c])[k]? == some bracket && (Lexer.after ((text ++ [c]).take k)).isOutside) = seen bracket text := by
    apply List.countP_congr
    intro k hk
    rw [List.mem_range] at hk
    rw [List.getElem?_append_left hk, List.take_append_of_le_length (Nat.le_of_lt hk)]
  rw [seen, List.length_append, List.length_singleton, List.range_succ, List.countP_append, hbefore]
  simp [List.countP_singleton]

/-- Whether a tag closes at an offset is decided by the text up to there. -/
theorem closesAt_take_iff (text : Text) {n k : Nat} (h : n < k) : ClosesAt (text.take k) n ↔ ClosesAt text n := by
  rw [ClosesAt, ClosesAt, List.getElem?_take_of_lt h, List.take_take, List.take_take,
    Nat.min_eq_left (Nat.le_of_lt h), Nat.min_eq_left h]

theorem closesAt_append_iff {a : Text} {n : Nat} (h : n < a.length) (b : Text) :
    ClosesAt (a ++ b) n ↔ ClosesAt a n := by
  rw [← closesAt_take_iff _ h, List.take_left]

theorem ClosesAt.lt_length {text : Text} {n : Nat} (h : ClosesAt text n) : n < text.length :=
  (List.getElem?_eq_some_iff.1 h.1).1

namespace Scan

/-- The part of a scan that is the lexer. -/
def lexer (s : Scan) : Lexer :=
  ⟨s.quote, s.escaped, s.braces⟩

def ofLexer (l : Lexer) (brackets : Nat) : Scan :=
  ⟨l.quote, l.escaped, l.braces, brackets⟩

/-- The scan moves as the lexer does, and counts the brackets outside strings and braces until the tag closes. -/
theorem step_eq (s : Scan) (c : Char) :
    s.step c =
      if c = '>' ∧ s.lexer.isOutside = true then
        if s.brackets ≤ 1 then .closed else .next (ofLexer (s.lexer.step c) (s.brackets - 1))
      else
        .next (ofLexer (s.lexer.step c)
          (s.brackets + if c = '<' ∧ s.lexer.isOutside = true then 1 else 0)) := by
  obtain ⟨quote, escaped, braces, brackets⟩ := s
  cases quote with
  | some quote =>
    simp only [step, inString, lexer, Lexer.step, Lexer.isOutside, ofLexer]
    grind
  | none =>
    simp only [step, outside, lexer, Lexer.step, Lexer.isOutside, ofLexer]
    grind [isQuote]

/-- What a scan that has not stopped knows of the text it has read. -/
structure Tracks (s : Scan) (text : Text) : Prop where
  lexer : s.lexer = Lexer.after text
  brackets : s.brackets + seen '>' text = seen '<' text

private theorem tracks_initial : ({} : Scan).Tracks [] :=
  ⟨rfl, rfl⟩

theorem Tracks.step_eq_closed_iff {s : Scan} {text : Text} (h : s.Tracks text) (c : Char) :
    s.step c = .closed ↔ ClosesAt (text ++ [c]) text.length := by
  have hbrackets := h.brackets
  have hother : ¬ '>' = '<' := by decide
  have htake : (text ++ [c]).take (text.length + 1) = text ++ [c] := List.take_of_length_le (by simp)
  rw [ClosesAt, htake, List.take_left, seen_concat, seen_concat, ← h.lexer, List.getElem?_concat_length,
    Option.some.injEq, Scan.step_eq]
  by_cases hcounts : c = '>' ∧ s.lexer.isOutside = true
  · obtain ⟨rfl, houtside⟩ := hcounts
    simp only [houtside, hother, false_and, and_self, if_true, if_false, true_and]
    split
    · exact iff_of_true rfl (by omega)
    · exact iff_of_false (by simp) (by omega)
  · rw [if_neg hcounts]
    refine iff_of_false (by simp) ?_
    rintro ⟨hc, houtside, -⟩
    exact hcounts ⟨hc, houtside⟩

theorem Tracks.next {s s' : Scan} {text : Text} (h : s.Tracks text) {c : Char} (hstep : s.step c = .next s') :
    s'.Tracks (text ++ [c]) := by
  have hbrackets := h.brackets
  have hother : ¬ '>' = '<' := by decide
  obtain ⟨brackets, rfl, hcount⟩ : ∃ brackets, s' = ofLexer (s.lexer.step c) brackets ∧
      brackets + seen '>' (text ++ [c]) = seen '<' (text ++ [c]) := by
    rw [seen_concat, seen_concat, ← h.lexer]
    rw [Scan.step_eq] at hstep
    split at hstep
    · next hcounts =>
      obtain ⟨rfl, houtside⟩ := hcounts
      split at hstep <;> cases hstep
      refine ⟨_, rfl, ?_⟩
      simp only [houtside, hother, false_and, and_self, if_true, if_false]
      omega
    · next hcounts =>
      cases hstep
      refine ⟨_, rfl, ?_⟩
      rw [if_neg hcounts]
      omega
  refine ⟨?_, hcount⟩
  rw [Lexer.after_concat, ← h.lexer]
  rfl

/-- The invariant of the scan: while it goes on, no tag has closed. -/
theorem tracks_of_read {text : Text} {s : Scan} (h : ({} : Scan).read text = some s) :
    s.Tracks text ∧ ∀ n, ¬ ClosesAt text n := by
  -- The text grows at its end, because what the scan knows is about all it has read.
  induction text using List.reverseRecOn generalizing s with
  | nil =>
    cases h
    exact ⟨tracks_initial, fun n hcloses => Nat.not_lt_zero n hcloses.lt_length⟩
  | append_singleton text c ih =>
    rw [read_append] at h
    obtain ⟨s', hs', hread⟩ := Option.bind_eq_some_iff.1 h
    obtain ⟨htracks, hopen⟩ := ih hs'
    rw [read] at hread
    cases hstep : s'.step c with
    | closed => simp [hstep] at hread
    | next next =>
      rw [hstep] at hread
      cases hread
      refine ⟨htracks.next hstep, fun n hcloses => ?_⟩
      have hlength := hcloses.lt_length
      rw [List.length_append, List.length_singleton] at hlength
      by_cases hn : n < text.length
      · exact hopen n ((closesAt_append_iff hn [c]).1 hcloses)
      · obtain rfl : n = text.length := by omega
        rw [(htracks.step_eq_closed_iff c).2 hcloses] at hstep
        cases hstep

theorem isLeast_of_line {text : Text} {n : Nat} (h : ({} : Scan).line 0 text = .inl n) :
    IsLeast {n | ClosesAt text n} n := by
  obtain ⟨u, v, s, rfl, hn, hread, hclosed⟩ := exists_of_line_inl h
  rw [Nat.zero_add] at hn
  subst hn
  obtain ⟨htracks, hopen⟩ := tracks_of_read hread
  have hsplit : u ++ '>' :: v = (u ++ ['>']) ++ v := by simp
  constructor
  · rw [Set.mem_ofPred_eq, hsplit, closesAt_append_iff (by simp)]
    exact (htracks.step_eq_closed_iff '>').1 hclosed
  · intro m hm
    by_contra hlt
    exact hopen m ((closesAt_append_iff (by omega) _).1 hm)

theorem not_closesAt_of_line {text : Text} {s : Scan} (h : ({} : Scan).line 0 text = .inr s) (n : Nat) :
    ¬ ClosesAt text n :=
  (tracks_of_read (read_of_line_inr h)).2 n

/-- The flat scan finds the first offset at which the tag closes. -/
theorem line_eq_inl_iff {text : Text} {n : Nat} :
    ({} : Scan).line 0 text = .inl n ↔ IsLeast {n | ClosesAt text n} n := by
  refine ⟨isLeast_of_line, fun hleast => ?_⟩
  cases hline : ({} : Scan).line 0 text with
  | inl m => rw [(isLeast_of_line hline).unique hleast]
  | inr s => exact absurd hleast.1 (not_closesAt_of_line hline n)

/-- An attribute that is put in outside strings moves the close of the tag to the right. -/
theorem line_insert {a b name value : Text} {n : Nat} (h : ({} : Scan).line 0 (a ++ b) = .inl n)
    (ha : a.length ≤ n) (hquote : (Lexer.after a).quote = none) (hname : ∀ c ∈ name, isPlain c = true)
    (hvalue : '\x22' ∉ value ∧ '\\' ∉ value) :
    ({} : Scan).line 0 (a ++ ' ' :: Attribute.render name value ++ b) =
      .inl (n + (' ' :: Attribute.render name value).length) := by
  obtain ⟨u, v, s', hsplit, hn, hread, hclosed⟩ := exists_of_line_inl h
  -- The scan reaches the place of the attribute before the bracket that closes the tag.
  obtain ⟨w, rfl⟩ : a <+: u := by
    refine List.prefix_of_prefix_length_le (List.prefix_append a b) ?_ (by omega)
    rw [hsplit]
    exact List.prefix_append _ _
  obtain rfl : b = w ++ '>' :: v := by simpa using hsplit
  rw [read_append] at hread
  obtain ⟨s, hs, hw⟩ := Option.bind_eq_some_iff.1 hread
  have houtside : s.quote = none := by
    rw [← hquote, ← (tracks_of_read hs).1.lexer]
    rfl
  have hpassed : s.read (' ' :: Attribute.render name value) = some s := by
    have hplain : ∀ c ∈ ' ' :: name, isPlain c = true := by
      intro c hc
      rw [List.mem_cons] at hc
      obtain rfl | hc := hc
      · decide
      · exact hname c hc
    exact read_attribute (sound_initial.read hs) houtside hplain (by decide)
      (Attribute.endsBefore_of_notMem hvalue.1 hvalue.2)
  have hnew : ({} : Scan).read (a ++ ' ' :: Attribute.render name value ++ w) = some s' := by
    rw [List.append_assoc, read_append, hs, Option.bind_some, read_append, hpassed, Option.bind_some]
    exact hw
  rw [← List.append_assoc, line_of_closed hnew hclosed, hn]
  simp only [List.length_append, Sum.inl.injEq]
  omega

end Scan

theorem Scan.lines_add (s : Scan) (index k : Nat) (texts : List Text) :
    s.lines (index + k) texts = (s.lines k texts).map fun place => (index + place.1, place.2) := by
  induction texts generalizing s k with
  | nil => rfl
  | cons text others ih =>
    rw [Scan.lines, Scan.lines]
    cases s.line 0 text with
    | inl column => rfl
    | inr s' => exact ih _ (k + 1)

/-- The lines above the start of a tag do not matter. -/
theorem close?_eq_map_drop (lines : List Text) (index column : Nat) :
    close? lines index column =
      (close? (lines.drop index) 0 column).map fun place => (index + place.1, place.2) := by
  rw [close?, close?, List.drop_zero]
  cases lines.drop index with
  | nil => rfl
  | cons text others =>
    simp only
    cases ({} : Scan).line column (text.drop column) with
    | inl column => rfl
    | inr s => exact Scan.lines_add _ index 1 others

/-- The lines from an index on as one text. -/
def textFrom (lines : List Text) (index : Nat) : Text :=
  Text.unlines (lines.drop index)

/-- Offset of a place in the text from a line on. -/
def offsetFrom (lines : List Text) (index : Nat) (place : Nat × Nat) : Nat :=
  Text.offset (lines.drop index) (place.1 - index) place.2

/-- A scan can start at a column of a line, the end of the line included. -/
structure StartsAt (lines : List Text) (index column : Nat) : Prop where
  free : ∀ line ∈ lines, '\n' ∉ line
  place : Text.IsPlace lines (index, column)

/-- The lexer at an offset of a text that it reads from another offset on. -/
def lexerFrom (start : Nat) (text : Text) (n : Nat) : Lexer :=
  Lexer.after ((text.drop start).take (n - start))

/-- The tag that starts at an offset of a text closes at another one. -/
def ClosesFrom (start : Nat) (text : Text) (n : Nat) : Prop :=
  start ≤ n ∧ ClosesAt (text.drop start) (n - start)

theorem ClosesFrom.le_length {start n : Nat} {text : Text} (h : ClosesFrom start text n) : n ≤ text.length := by
  have hlength := h.2.lt_length
  rw [List.length_drop] at hlength
  omega

/-- The place of an offset in the text from a line on. -/
def placeFrom (lines : List Text) (index n : Nat) : Nat × Nat :=
  let place := Text.position ((textFrom lines index).take n)
  (index + place.1, place.2)

theorem isLeast_closesFrom_iff {start : Nat} {text : Text} {n : Nat} :
    IsLeast {n | ClosesFrom start text n} (start + n) ↔ IsLeast {n | ClosesAt (text.drop start) n} n := by
  simp only [IsLeast, mem_lowerBounds, Set.mem_ofPred_eq, ClosesFrom, Nat.le_add_right, true_and,
    Nat.add_sub_cancel_left]
  refine and_congr_right fun _ => ⟨fun h m hm => ?_, fun h m hm => ?_⟩
  · have := h (start + m) ⟨Nat.le_add_right _ _, by rwa [Nat.add_sub_cancel_left]⟩
    omega
  · have := h (m - start) hm.2
    omega

namespace StartsAt

variable {lines : List Text} {index column : Nat}

theorem lines_textFrom (h : StartsAt lines index column) : Text.lines (textFrom lines index) = lines.drop index := by
  apply Text.lines_unlines
  · exact fun hnil => absurd h.place.1 (Nat.not_lt.2 (List.drop_eq_nil_iff.1 hnil))
  · exact fun line hline => h.free line (List.mem_of_mem_drop hline)

/-- The start is on the first line of the text from there on. -/
theorem le_length_firstLine (h : StartsAt lines index column) :
    column ≤ (Text.firstLine (textFrom lines index)).length := by
  have hfirst := Text.lines_eq_cons (textFrom lines index)
  rw [h.lines_textFrom, List.drop_eq_getElem_cons h.place.1, List.cons.injEq] at hfirst
  have hcolumn := h.place.2
  rw [List.getD_eq_getElem?_getD, List.getElem?_eq_getElem h.place.1, Option.getD_some, hfirst.1] at hcolumn
  exact hcolumn

/-- Scanning from line to line is scanning the text from the start on. -/
theorem close?_eq (h : StartsAt lines index column) :
    close? lines index column =
      match ({} : Scan).line 0 ((textFrom lines index).drop column) with
      | .inl n => some (placeFrom lines index (column + n))
      | .inr _ => none := by
  have hstart : Text.position ((textFrom lines index).take column) = (0, column) := by
    have hfree : '\n' ∉ (textFrom lines index).take column := by
      obtain ⟨rest, hrest⟩ := List.takeWhile_prefix (l := textFrom lines index) (· ≠ '\n')
      change Text.firstLine (textFrom lines index) ++ rest = _ at hrest
      rw [← hrest, List.take_append_of_le_length h.le_length_firstLine]
      exact fun hmem => Text.notMem_firstLine _ (List.mem_of_mem_take hmem)
    have hlength : ((textFrom lines index).take column).length = column :=
      List.length_take_of_le (Nat.le_trans h.le_length_firstLine (List.takeWhile_prefix _).length_le)
    rw [Text.position, Text.advance_of_notMem hfree, hlength, Nat.zero_add]
  have hflat := close?_lines_append ((textFrom lines index).take column) ((textFrom lines index).drop column)
  rw [List.take_append_drop, hstart, h.lines_textFrom] at hflat
  rw [close?_eq_map_drop, hflat]
  cases ({} : Scan).line 0 ((textFrom lines index).drop column) with
  | inl n => simp only [placeFrom, List.take_add, Option.map_some]
  | inr s => rfl

/-- The answer of a scan is the place of the first offset at which the tag closes. -/
theorem close?_eq_some_iff (h : StartsAt lines index column) {place : Nat × Nat} :
    close? lines index column = some place ↔
      ∃ n, IsLeast {n | ClosesFrom column (textFrom lines index) n} n ∧ placeFrom lines index n = place := by
  rw [h.close?_eq]
  cases hline : ({} : Scan).line 0 ((textFrom lines index).drop column) with
  | inl n =>
    have hleast := isLeast_closesFrom_iff.2 (Scan.line_eq_inl_iff.1 hline)
    simp only [Option.some.injEq]
    constructor
    · exact fun hplace => ⟨column + n, hleast, hplace⟩
    · rintro ⟨m, hm, hplace⟩
      rw [hleast.unique hm]
      exact hplace
  | inr s =>
    refine iff_of_false (by simp) ?_
    rintro ⟨n, hn, -⟩
    exact Scan.not_closesAt_of_line hline _ hn.1.2

/-- Places from the start line on and offsets of the text from there on are the same thing. -/
theorem placeFrom_eq_iff (h : StartsAt lines index column) {place : Nat × Nat} {n : Nat} :
    n ≤ (textFrom lines index).length ∧ placeFrom lines index n = place ↔
      index ≤ place.1 ∧ Text.IsPlace lines place ∧ offsetFrom lines index place = n := by
  have hplaces : ∀ i, Text.IsPlace (lines.drop index) (i, place.2) ↔ Text.IsPlace lines (index + i, place.2) := by
    intro i
    simp only [Text.IsPlace, List.length_drop, List.getD_eq_getElem?_getD, List.getElem?_drop]
    refine and_congr_left fun _ => ?_
    omega
  have hcount := Text.position_take_eq_iff (textFrom lines index) (place.1 - index, place.2) n
  rw [h.lines_textFrom, hplaces] at hcount
  constructor
  · rintro ⟨hn, rfl⟩
    have hposition : Text.position ((textFrom lines index).take n) =
        ((placeFrom lines index n).1 - index, (placeFrom lines index n).2) := by
      simp only [placeFrom, Nat.add_sub_cancel_left]
    obtain ⟨hplace, hoffset⟩ := hcount.1 ⟨hn, hposition⟩
    have hindex : index ≤ (placeFrom lines index n).1 := Nat.le_add_right _ _
    rw [Nat.add_sub_cancel' hindex] at hplace
    exact ⟨hindex, hplace, hoffset⟩
  · rintro ⟨hindex, hplace, hoffset⟩
    rw [Nat.add_sub_cancel' hindex] at hcount
    obtain ⟨hn, hposition⟩ := hcount.2 ⟨hplace, hoffset⟩
    refine ⟨hn, ?_⟩
    rw [placeFrom, hposition, Nat.add_sub_cancel' hindex]

/-- The same with the offset of the place. -/
theorem close?_eq_some_iff_isLeast (h : StartsAt lines index column) {place : Nat × Nat} :
    close? lines index column = some place ↔
      index ≤ place.1 ∧ Text.IsPlace lines place ∧
        IsLeast {n | ClosesFrom column (textFrom lines index) n} (offsetFrom lines index place) := by
  rw [h.close?_eq_some_iff]
  constructor
  · rintro ⟨n, hleast, hplace⟩
    obtain ⟨hindex, hinside, rfl⟩ := h.placeFrom_eq_iff.1 ⟨hleast.1.le_length, hplace⟩
    exact ⟨hindex, hinside, hleast⟩
  · rintro ⟨hindex, hinside, hleast⟩
    exact ⟨_, hleast, (h.placeFrom_eq_iff.2 ⟨hindex, hinside, rfl⟩).2⟩

private theorem close?_eq_none_iff (h : StartsAt lines index column) :
    close? lines index column = none ↔ ∀ n, ¬ ClosesFrom column (textFrom lines index) n := by
  rw [h.close?_eq]
  cases hline : ({} : Scan).line 0 ((textFrom lines index).drop column) with
  | inl n =>
    have hleast := isLeast_closesFrom_iff.2 (Scan.line_eq_inl_iff.1 hline)
    exact iff_of_false (by simp) fun hnone => hnone _ hleast.1
  | inr s => exact iff_of_true rfl fun n hcloses => Scan.not_closesAt_of_line hline _ hcloses.2

end StartsAt

private theorem isLeast_closesFrom_congr {start n : Nat} {text text' : Text} (h : IsLeast {n | ClosesFrom start text n} n)
    (heq : text'.take (n + 1) = text.take (n + 1)) : IsLeast {n | ClosesFrom start text' n} n := by
  have hsame : ∀ m ≤ n, start ≤ m →
      (ClosesAt (text'.drop start) (m - start) ↔ ClosesAt (text.drop start) (m - start)) := by
    intro m hm hstart
    have hk : m - start < n + 1 - start := by omega
    rw [← closesAt_take_iff _ hk, ← closesAt_take_iff (text.drop start) hk, ← List.drop_take, heq, List.drop_take]
  refine ⟨⟨h.1.1, (hsame n (Nat.le_refl n) h.1.1).2 h.1.2⟩, fun m hm => ?_⟩
  by_contra hlt
  exact hlt (h.2 ⟨hm.1, (hsame m (by omega) hm.1).1 hm.2⟩)

private theorem isLeast_closesFrom_insert {start m n : Nat} {text name value : Text}
    (h : IsLeast {n | ClosesFrom start text n} n) (hstart : start ≤ m) (hm : m ≤ n)
    (hquote : (lexerFrom start text m).quote = none)
    (hname : ∀ c ∈ name, isPlain c = true) (hvalue : '\x22' ∉ value ∧ '\\' ∉ value) :
    IsLeast {n | ClosesFrom start (text.take m ++ ' ' :: Attribute.render name value ++ text.drop m) n}
      (n + (' ' :: Attribute.render name value).length) := by
  have hlength := h.1.2.lt_length
  rw [List.length_drop] at hlength
  have hold : ({} : Scan).line 0 ((text.drop start).take (m - start) ++ text.drop m) = .inl (n - start) := by
    have hdrop : text.drop m = (text.drop start).drop (m - start) := by
      rw [List.drop_drop, Nat.add_sub_cancel' hstart]
    rw [hdrop, List.take_append_drop, Scan.line_eq_inl_iff, ← isLeast_closesFrom_iff, Nat.add_sub_cancel' h.1.1]
    exact h
  have hnew := Scan.line_insert hold (by rw [List.length_take_of_le (by rw [List.length_drop]; omega)]; omega)
    hquote hname hvalue
  rw [Scan.line_eq_inl_iff] at hnew
  have htext : (text.take m ++ ' ' :: Attribute.render name value ++ text.drop m).drop start =
      (text.drop start).take (m - start) ++ ' ' :: Attribute.render name value ++ text.drop m := by
    rw [List.append_assoc, List.drop_append_of_le_length (by rw [List.length_take_of_le (by omega)]; exact hstart),
      List.drop_take, List.append_assoc]
  rw [← htext, ← isLeast_closesFrom_iff] at hnew
  rwa [show start + (n - start + (' ' :: Attribute.render name value).length) =
    n + (' ' :: Attribute.render name value).length by have := h.1.1; omega] at hnew

/-- The scan for the close of a tag, line by line, is a scan of the text from the start line on. It answers with
the place of the first offset at which the tag closes, and with nothing if there is none. So the answer depends
only on the text up to that offset, and an attribute that is put in before it, outside strings, moves it to the
right by its own length. -/
theorem close?_is_flat_scan {lines : List Text} {index column : Nat} (h : StartsAt lines index column) :
    (∀ place, close? lines index column = some place ↔
      index ≤ place.1 ∧ Text.IsPlace lines place ∧
        IsLeast {n | ClosesFrom column (textFrom lines index) n} (offsetFrom lines index place)) ∧
    (close? lines index column = none ↔ ∀ n, ¬ ClosesFrom column (textFrom lines index) n) ∧
    ∀ place, close? lines index column = some place → ∀ lines' index', StartsAt lines' index' column →
      ((textFrom lines' index').take (offsetFrom lines index place + 1) =
          (textFrom lines index).take (offsetFrom lines index place + 1) →
        close? lines' index' column = some (index' + (place.1 - index), place.2)) ∧
      ∀ m name value, column ≤ m → m ≤ offsetFrom lines index place →
        (lexerFrom column (textFrom lines index) m).quote = none →
        (∀ c ∈ name, isPlain c = true) → '\x22' ∉ value ∧ '\\' ∉ value →
        textFrom lines' index' =
          (textFrom lines index).take m ++ ' ' :: Attribute.render name value ++ (textFrom lines index).drop m →
        ∃ place', close? lines' index' column = some place' ∧
          offsetFrom lines' index' place' =
            offsetFrom lines index place + (' ' :: Attribute.render name value).length := by
  refine ⟨fun place => h.close?_eq_some_iff_isLeast, h.close?_eq_none_iff, fun place hplace lines' index' h' => ?_⟩
  obtain ⟨hindex, hinside, hleast⟩ := h.close?_eq_some_iff_isLeast.1 hplace
  refine ⟨fun heq => ?_, fun m name value hstart hm hquote hname hvalue htext => ?_⟩
  · obtain ⟨-, hposition⟩ := h.placeFrom_eq_iff.2 ⟨hindex, hinside, rfl⟩
    refine h'.close?_eq_some_iff.2 ⟨_, isLeast_closesFrom_congr hleast heq, ?_⟩
    have htake := congrArg (List.take (offsetFrom lines index place)) heq
    rw [List.take_take, List.take_take, Nat.min_eq_left (Nat.le_succ _)] at htake
    rw [← congrArg Prod.fst hposition, ← congrArg Prod.snd hposition]
    simp only [placeFrom, htake, Nat.add_sub_cancel_left]
  · have hmoved := isLeast_closesFrom_insert hleast hstart hm hquote hname hvalue
    rw [← htext] at hmoved
    obtain ⟨-, -, hoffset⟩ := h'.placeFrom_eq_iff.1 ⟨hmoved.1.le_length, rfl⟩
    exact ⟨_, h'.close?_eq_some_iff.2 ⟨_, hmoved, rfl⟩, hoffset⟩

/-- A tag over three lines. The string holds a closing bracket and goes on to the next line, because its quote at
the end of the line is escaped; the braces hold an opening bracket. -/
def wrappedTag : List Text :=
  ["p <a", "t=\x27>\\\x27", "\x27\x7b<\x7d>", "q>"].map String.toList

def wrappedTagWithId : List Text :=
  ["p <a id=\x22v\x22", "t=\x27>\\\x27", "\x27\x7b<\x7d>", "q>"].map String.toList

theorem close?_is_flat_scan_in_wrappedTag :
    StartsAt wrappedTag 0 2 ∧ close? wrappedTag 0 2 = some (2, 4) ∧ offsetFrom wrappedTag 0 (2, 4) = 16 ∧
      IsLeast {n | ClosesFrom 2 (textFrom wrappedTag 0) n} 16 ∧
      ∃ place, close? wrappedTagWithId 0 2 = some place ∧ offsetFrom wrappedTagWithId 0 place = 16 + 7 := by
  have hstart : StartsAt wrappedTag 0 2 := ⟨by decide, by decide, by decide⟩
  have hstart' : StartsAt wrappedTagWithId 0 2 := ⟨by decide, by decide, by decide⟩
  have hclose : close? wrappedTag 0 2 = some (2, 4) := by decide +kernel
  have hoffset : offsetFrom wrappedTag 0 (2, 4) = 16 := by decide +kernel
  have hscan := close?_is_flat_scan hstart
  have hleast := ((hscan.1 (2, 4)).1 hclose).2.2
  have hmoved := (hscan.2.2 (2, 4) hclose wrappedTagWithId 0 hstart').2 4 "id".toList "v".toList
    (by decide) (by rw [hoffset]; decide) (by decide) (List.all_eq_true.1 (by decide)) (by decide) (by decide)
  rw [hoffset] at hleast hmoved
  exact ⟨hstart, hclose, hoffset, hleast, hmoved⟩

end TagStamp.Tag
