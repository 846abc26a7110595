import TagStamp.Proofs.Text.Lines
import TagStamp.Tag.Close

namespace TagStamp.Tag

namespace Scan

/-- What holds of every state of a scan: a string ends with one of the quotes, and only inside a string
can a character be escaped. -/
structure Sound (s : Scan) : Prop where
  quote : ∀ c, s.quote = some c → isQuote c = true
  escaped : s.quote = none → s.escaped = false

theorem sound_initial : ({} : Scan).Sound :=
  ⟨by simp, by simp⟩

theorem Sound.inString {s : Scan} {quote : Char} (hs : s.Sound) (hquote : s.quote = some quote) (c : Char) :
    (s.inString quote c).Sound := by
  unfold Scan.inString
  split
  · exact ⟨hs.quote, by simp [hquote]⟩
  · split
    · exact ⟨hs.quote, by simp [hquote]⟩
    · split
      · exact ⟨by simp, by simp_all⟩
      · exact hs

theorem Sound.outside {s s' : Scan} (hs : s.Sound) (hquote : s.quote = none) {c : Char}
    (h : s.outside c = .next s') : s'.Sound := by
  have hescaped := hs.escaped hquote
  unfold Scan.outside at h
  split at h
  · cases h
    exact ⟨hs.quote, hs.escaped⟩
  · split at h
    · cases h
      exact ⟨hs.quote, hs.escaped⟩
    · split at h
      · next hc =>
        cases h
        exact ⟨by rintro d ⟨⟩; exact hc, by simp⟩
      · split at h
        · cases h
          exact hs
        · split at h
          · cases h
            exact ⟨hs.quote, hs.escaped⟩
          · split at h
            · split at h
              · cases h
              · cases h
                exact ⟨hs.quote, hs.escaped⟩
            · cases h
              exact hs

theorem Sound.step {s s' : Scan} (hs : s.Sound) {c : Char} (h : s.step c = .next s') : s'.Sound := by
  unfold Scan.step at h
  cases hquote : s.quote with
  | none =>
    rw [hquote] at h
    exact hs.outside hquote h
  | some quote =>
    rw [hquote] at h
    cases h
    exact hs.inString hquote c

/-- A line feed ends an escape and changes nothing else, which is what the end of a line does. -/
theorem Sound.step_feed {s : Scan} (hs : s.Sound) : s.step '\n' = .next { s with escaped := false } := by
  unfold Scan.step
  cases hquote : s.quote with
  | none =>
    have hescaped := hs.escaped hquote
    obtain ⟨quote, escaped, braces, brackets⟩ := s
    simp_all [Scan.outside, isQuote]
  | some quote =>
    have hne : quote ≠ '\n' := by
      rintro rfl
      have := hs.quote '\n' hquote
      simp [isQuote] at this
    obtain ⟨_, escaped, braces, brackets⟩ := s
    cases escaped <;> simp_all [Scan.inString, Ne.symm hne]

/-- Only the closing bracket closes a tag. -/
theorem eq_of_step_closed {s : Scan} {c : Char} (h : s.step c = .closed) : c = '>' := by
  unfold Scan.step at h
  cases hquote : s.quote with
  | some quote => simp [hquote] at h
  | none =>
    rw [hquote] at h
    simp only [Scan.outside] at h
    split at h <;> try contradiction
    split at h <;> try contradiction
    split at h <;> try contradiction
    split at h <;> try contradiction
    split at h <;> try contradiction
    split at h
    · assumption
    · contradiction

/-- The state after a text in which the tag does not close. -/
def read (s : Scan) : Text → Option Scan
  | [] => some s
  | c :: rest =>
    match s.step c with
    | .closed => none
    | .next s => s.read rest

theorem read_append (s : Scan) (u v : Text) : s.read (u ++ v) = (s.read u).bind fun s' => s'.read v := by
  induction u generalizing s with
  | nil => rfl
  | cons c rest ih =>
    rw [List.cons_append, read, read]
    cases s.step c with
    | closed => rfl
    | next s' => exact ih s'

theorem Sound.read {s s' : Scan} (hs : s.Sound) {text : Text} (h : s.read text = some s') : s'.Sound := by
  induction text generalizing s with
  | nil =>
    cases h
    exact hs
  | cons c rest ih =>
    rw [Scan.read] at h
    cases hstep : s.step c with
    | closed => simp [hstep] at h
    | next next =>
      rw [hstep] at h
      exact ih (hs.step hstep) h

theorem line_of_read {s s' : Scan} {u : Text} (h : s.read u = some s') (column : Nat) (v : Text) :
    s.line column (u ++ v) = s'.line (column + u.length) v := by
  induction u generalizing s column with
  | nil =>
    cases h
    rfl
  | cons c rest ih =>
    rw [read] at h
    rw [List.cons_append, Scan.line]
    cases hstep : s.step c with
    | closed => simp [hstep] at h
    | next next =>
      rw [hstep] at h
      simp only [ih h, List.length_cons]
      congr 1
      omega

/-- A scan that does not stop has read everything. -/
theorem read_of_line_inr {s s' : Scan} {column : Nat} {text : Text} (h : s.line column text = .inr s') :
    s.read text = some s' := by
  induction text generalizing s column with
  | nil =>
    cases h
    rfl
  | cons c rest ih =>
    rw [Scan.line] at h
    rw [read]
    cases hstep : s.step c with
    | closed => simp [hstep] at h
    | next next =>
      rw [hstep] at h
      exact ih h

/-- A scan that stops has found a closing bracket that closes the tag, and none before it. -/
theorem exists_of_line_inl {s : Scan} {column n : Nat} {text : Text} (h : s.line column text = .inl n) :
    ∃ u v s', text = u ++ '>' :: v ∧ n = column + u.length ∧ s.read u = some s' ∧ s'.step '>' = .closed := by
  induction text generalizing s column with
  | nil => cases h
  | cons c rest ih =>
    rw [Scan.line] at h
    cases hstep : s.step c with
    | closed =>
      rw [hstep] at h
      cases h
      have hc := eq_of_step_closed hstep
      subst hc
      exact ⟨[], rest, s, rfl, rfl, rfl, hstep⟩
    | next next =>
      rw [hstep] at h
      obtain ⟨u, v, s', rfl, hn, hread, hclosed⟩ := ih h
      refine ⟨c :: u, v, s', rfl, ?_, ?_, hclosed⟩
      · simp only [List.length_cons]
        omega
      · rw [read, hstep]
        exact hread

theorem line_of_closed {s s' : Scan} {u : Text} (hread : s.read u = some s') (hclosed : s'.step '>' = .closed)
    (column : Nat) (v : Text) : s.line column (u ++ '>' :: v) = .inl (column + u.length) := by
  rw [line_of_read hread, Scan.line, hclosed]

/-- Scanning the lines of a text one by one finds the place that the flat scan finds as an offset. -/
theorem Sound.lines_eq_line {s : Scan} (hs : s.Sound) (place : Nat × Nat) (start : Nat) (text : Text) :
    (match s.line place.2 (Text.firstLine text) with
      | .inl column => some (place.1, column)
      | .inr s' => { s' with escaped := false }.lines (place.1 + 1) (Text.lines text).tail) =
    match s.line start text with
      | .inl n => some (Text.advance place (text.take (n - start)))
      | .inr _ => none := by
  induction text generalizing s place start with
  | nil => rfl
  | cons c rest ih =>
    by_cases hc : c = '\n'
    · -- The end of the line: the next line is scanned as the rest of the text is.
      subst hc
      have hfirst : Text.firstLine ('\n' :: rest) = [] := rfl
      rw [hfirst, Text.lines_cons_feed, Scan.line, Scan.line, hs.step_feed]
      have hnext := ih (hs.step hs.step_feed) (place.1 + 1, 0) (start + 1)
      simp only [List.tail_cons]
      rw [Text.lines_eq_cons rest, Scan.lines]
      apply Eq.trans hnext
      cases hline : ({ s with escaped := false } : Scan).line (start + 1) rest with
      | inr s' => rfl
      | inl n =>
        obtain ⟨u, v, s', -, hn, -⟩ := exists_of_line_inl hline
        have htake : n - start = (n - (start + 1)) + 1 := by omega
        simp [htake, Text.advance]
    · have hfirst : Text.firstLine (c :: rest) = c :: Text.firstLine rest := by simp [Text.firstLine, hc]
      rw [hfirst, Text.lines_cons_of_ne hc, Scan.line, Scan.line]
      cases hstep : s.step c with
      | closed => simp [Text.advance]
      | next s' =>
        have hnext := ih (hs.step hstep) (place.1, place.2 + 1) (start + 1)
        simp only [List.tail_cons] at hnext ⊢
        rw [hnext]
        cases hline : s'.line (start + 1) rest with
        | inr s'' => rfl
        | inl n =>
          obtain ⟨u, v, s'', -, hn, -⟩ := exists_of_line_inl hline
          have htake : n - start = (n - (start + 1)) + 1 := by omega
          simp [htake, Text.advance, hc]

end Scan

/-- The close of the tag at the end of a prefix is the flat scan of what follows the prefix. -/
theorem close?_lines_append (p q : Text) :
    close? (Text.lines (p ++ q)) (Text.position p).1 (Text.position p).2 =
      match ({} : Scan).line 0 q with
      | .inl n => some (Text.position (p ++ q.take n))
      | .inr _ => none := by
  have hdrop : (Text.lines (p ++ q)).drop (Text.position p).1 =
      (Text.lastLine p ++ Text.firstLine q) :: (Text.lines q).tail := by
    rw [Text.position_eq, Text.lines_append, List.drop_left]
  have hcolumn : (Text.lastLine p ++ Text.firstLine q).drop (Text.position p).2 = Text.firstLine q := by
    rw [Text.position_eq, List.drop_left]
  have hflat := Scan.sound_initial.lines_eq_line (Text.position p) 0 q
  rw [close?, hdrop]
  simp only [hcolumn, Nat.sub_zero] at hflat ⊢
  apply Eq.trans hflat
  cases ({} : Scan).line 0 q with
  | inl n => simp only [Text.position_append]
  | inr s => rfl

/-- Length of the tag at the beginning of a text. A tag that does not close ends with its line. -/
def extent (text : Text) : Nat :=
  match ({} : Scan).line 0 text with
  | .inl n => n + 1
  | .inr _ => (Text.firstLine text).length

theorem extent_le_length (text : Text) : extent text ≤ text.length := by
  unfold extent
  cases hline : ({} : Scan).line 0 text with
  | inl n =>
    obtain ⟨u, v, s, rfl, hn, -⟩ := Scan.exists_of_line_inl hline
    simp only [List.length_append, List.length_cons]
    omega
  | inr s => exact (List.takeWhile_prefix _).length_le

theorem extent_of_closed {u : Text} {s : Scan} (hread : ({} : Scan).read u = some s)
    (hclosed : s.step '>' = .closed) (v : Text) : extent (u ++ '>' :: v) = u.length + 1 := by
  rw [extent, Scan.line_of_closed hread hclosed]
  simp

end TagStamp.Tag
