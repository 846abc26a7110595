import TagStamp.Proofs.Attribute.Leftmost
import TagStamp.Proofs.Tag.FlatScan
import TagStamp.Proofs.Tag.Opening

namespace TagStamp.Tag

/-- The text is one tag, from its opening bracket to the bracket that closes it. -/
def Whole (tag : Text) : Prop :=
  ∃ u s, tag = u ++ ['>'] ∧ ({} : Scan).read u = some s ∧ s.step '>' = .closed

theorem Whole.extent_append {tag : Text} (h : Whole tag) (after : Text) :
    extent (tag ++ after) = tag.length := by
  obtain ⟨u, s, rfl, hread, hclosed⟩ := h
  rw [List.append_assoc, List.singleton_append, extent_of_closed hread hclosed]
  simp

/-- A part that leaves the scan in the state it found it in can be exchanged for another one. -/
theorem Whole.exchange {u old new v : Text} {s : Scan} (h : Whole (u ++ old ++ v))
    (hu : ({} : Scan).read u = some s) (hold : s.read old = some s) (hnew : s.read new = some s) :
    v ≠ [] ∧ Whole (u ++ new ++ v) := by
  obtain ⟨x, s', hsplit, hread, hclosed⟩ := h
  have hprefix : ({} : Scan).read (u ++ old) = some s := by
    rw [Scan.read_append, hu]
    exact hold
  have hne : v ≠ [] := by
    rintro rfl
    rw [List.append_nil] at hsplit
    rw [hsplit, Scan.read_append, hread] at hprefix
    simp [Scan.read, hclosed] at hprefix
  obtain ⟨w, c, rfl⟩ := (List.eq_nil_or_concat v).resolve_left hne
  rw [List.concat_eq_append, ← List.append_assoc, List.append_singleton_inj] at hsplit
  obtain ⟨rfl, rfl⟩ := hsplit
  rw [Scan.read_append, hprefix] at hread
  refine ⟨hne, u ++ new ++ w, s', by simp, ?_, hclosed⟩
  rw [Scan.read_append, Scan.read_append, hu]
  simp only [Option.bind_some, hnew]
  exact hread

/-- The tag at the beginning of a text, closed or not, ends where it did when a part of it that leaves the scan in the
state it found it in is exchanged for another one. -/
theorem extent_exchange {u old new v : Text} {s : Scan} (hu : ({} : Scan).read u = some s)
    (hold : s.read old = some s) (hnew : s.read new = some s) (holdFree : '\n' ∉ old) (hnewFree : '\n' ∉ new)
    (hinside : (u ++ old).length ≤ extent (u ++ old ++ v)) :
    extent (u ++ new ++ v) + old.length = extent (u ++ old ++ v) + new.length := by
  have hline {part : Text} (hpart : s.read part = some s) :
      ({} : Scan).line 0 (u ++ part ++ v) = s.line (u ++ part).length v := by
    rw [Scan.line_of_read (by rw [Scan.read_append, hu]; exact hpart), Nat.zero_add]
  unfold extent at hinside ⊢
  rw [hline hold] at hinside ⊢
  rw [hline hnew]
  cases hscan : s.line (u ++ old).length v with
  | inl n =>
    obtain ⟨x, y, s', rfl, hn, hread, hclosed⟩ := Scan.exists_of_line_inl hscan
    rw [Scan.line_of_closed hread hclosed]
    simp only [hn, List.length_append]
    omega
  | inr s' =>
    -- The tag ends with its line, and the exchanged parts are both on that line.
    have hrest : s.line (u ++ new).length v = .inr s' := by
      have hread := Scan.line_of_read (Scan.read_of_line_inr hscan) (u ++ new).length []
      rwa [List.append_nil] at hread
    have hfree : '\n' ∉ u := by
      intro hmem
      have hshort := Text.length_firstLine_lt_of_mem hmem
      simp only [hscan] at hinside
      rw [List.append_assoc, Text.firstLine_append_of_mem hmem, List.length_append] at hinside
      omega
    have hfirst {part : Text} (hpart : '\n' ∉ part) :
        Text.firstLine (u ++ part ++ v) = u ++ part ++ Text.firstLine v :=
      Text.firstLine_append_of_notMem (by simp [hfree, hpart]) v
    simp only [hrest]
    simp only [hfirst holdFree, hfirst hnewFree, List.length_append]
    omega

/-- A character without a meaning for the scan outside strings. -/
def isPlain (c : Char) : Bool :=
  c != '\x7b' && c != '\x7d' && c != '<' && c != '>' && !isQuote c

theorem Scan.step_plain {s : Scan} (hs : s.quote = none) {c : Char} (hc : isPlain c = true) :
    s.step c = .next s := by
  simp only [isPlain, Bool.and_eq_true, bne_iff_ne, ne_eq, Bool.not_eq_true'] at hc
  obtain ⟨⟨⟨⟨hopen, hshut⟩, hless⟩, hgreater⟩, hquote⟩ := hc
  simp [Scan.step, hs, Scan.outside, hopen, hshut, hless, hgreater, hquote]

theorem Scan.read_plain {s : Scan} (hs : s.quote = none) {text : Text}
    (htext : ∀ c ∈ text, isPlain c = true) : s.read text = some s := by
  induction text with
  | nil => rfl
  | cons c rest ih =>
    rw [Scan.read, Scan.step_plain hs (htext c List.mem_cons_self)]
    exact ih fun d hd => htext d (List.mem_cons_of_mem c hd)

/-- Inside a string, a text that does not end the string is passed over. -/
theorem Scan.read_inString {s : Scan} {quote : Char} (hquote : s.quote = some quote)
    (hescaped : s.escaped = false) {value : Text} (hends : Attribute.endsBefore quote value = true) :
    s.read value = some s := by
  have hplain : ∀ c, c ≠ '\\' → c ≠ quote → s.step c = .next s := by
    intro c hslash hc
    simp [Scan.step, hquote, Scan.inString, hescaped, hslash, hc]
  fun_induction Attribute.endsBefore quote value with
  | case1 => rfl
  | case2 c =>
    simp only [Bool.and_eq_true, decide_eq_true_eq] at hends
    rw [Scan.read, hplain c hends.1 hends.2]
    rfl
  | case3 d rest ih =>
    have hslash : s.step '\\' = .next { s with escaped := true } := by
      simp [Scan.step, hquote, Scan.inString, hescaped]
    have htaken : ({ s with escaped := true } : Scan).step d = .next s := by
      obtain ⟨_, _, braces, brackets⟩ := s
      simp_all [Scan.step, Scan.inString]
    rw [Scan.read, hslash]
    simp only [Scan.read, htaken]
    exact ih hends
  | case4 c d rest hc ih =>
    simp only [Bool.and_eq_true, decide_eq_true_eq] at hends
    rw [Scan.read, hplain c hc hends.1]
    exact ih hends.2

/-- A quoted string as a whole is passed over. -/
theorem Scan.read_quoted {s : Scan} (hsound : s.Sound) (hs : s.quote = none) {quote : Char}
    (hquote : isQuote quote = true) {value : Text} (hends : Attribute.endsBefore quote value = true) :
    s.read (quote :: value ++ [quote]) = some s := by
  have hescaped := hsound.escaped hs
  have hne : quote ≠ '\x7b' ∧ quote ≠ '\x7d' ∧ quote ≠ '\\' := by
    simp only [isQuote, Bool.or_eq_true, beq_iff_eq] at hquote
    obtain (rfl | rfl) | rfl := hquote <;> decide
  have hopen : s.step quote = .next { s with quote := some quote } := by
    simp [Scan.step, hs, Scan.outside, hne, hquote]
  have hshut : ({ s with quote := some quote } : Scan).step quote = .next s := by
    obtain ⟨_, _, braces, brackets⟩ := s
    simp_all [Scan.step, Scan.inString]
  have hinside : ({ s with quote := some quote } : Scan).read value = some { s with quote := some quote } :=
    Scan.read_inString (s := { s with quote := some quote }) rfl hescaped hends
  rw [List.cons_append, Scan.read, hopen]
  simp only
  rw [Scan.read_append, hinside]
  simp [Scan.read, hshut]

/-- An attribute of a plain name is passed over. -/
theorem Scan.read_attribute {s : Scan} (hsound : s.Sound) (hs : s.quote = none) {name : Text}
    (hname : ∀ c ∈ name, isPlain c = true) {quote : Char} (hquote : isQuote quote = true) {value : Text}
    (hends : Attribute.endsBefore quote value = true) :
    s.read (name ++ '=' :: quote :: value ++ [quote]) = some s := by
  have hplain : ∀ c ∈ name ++ ['='], isPlain c = true := by
    intro c hc
    rw [List.mem_append, List.mem_singleton] at hc
    obtain hc | rfl := hc
    · exact hname c hc
    · decide
  have hsplit : name ++ '=' :: quote :: value ++ [quote] = (name ++ ['=']) ++ (quote :: value ++ [quote]) := by
    simp
  rw [hsplit, Scan.read_append, Scan.read_plain hs hplain]
  exact Scan.read_quoted hsound hs hquote hends

/-- A tag name that neither closes the tag nor begins a string. -/
def isTame (name : Text) : Bool :=
  name.all fun c => c != '>' && !isQuote c

theorem Scan.read_tame {s : Scan} (hs : s.quote = none) {name : Text} (hname : isTame name = true) :
    ∃ s', s.read name = some s' ∧ s'.quote = none := by
  induction name generalizing s with
  | nil => exact ⟨s, rfl, hs⟩
  | cons c rest ih =>
    simp only [isTame, List.all_cons, Bool.and_eq_true, bne_iff_ne, ne_eq, Bool.not_eq_true'] at hname
    obtain ⟨⟨hclose, hquote⟩, hrest⟩ := hname
    obtain ⟨next, hstep, hnext⟩ : ∃ next, s.step c = .next next ∧ next.quote = none := by
      simp only [Scan.step, hs, Scan.outside, hquote, Bool.false_eq_true, if_false, hclose]
      split
      · exact ⟨_, rfl, rfl⟩
      · split
        · exact ⟨_, rfl, rfl⟩
        · split
          · exact ⟨s, rfl, hs⟩
          · split
            · exact ⟨_, rfl, rfl⟩
            · exact ⟨s, rfl, hs⟩
    rw [Scan.read, hstep]
    exact ih hnext hrest

/-- After the bracket and a tame name, the scan is outside strings. -/
theorem read_opening {name : Text} (hname : isTame name = true) :
    ∃ s, ({} : Scan).read ('<' :: name) = some s ∧ s.quote = none ∧ s.Sound := by
  obtain ⟨s, hread, hs⟩ := Scan.read_tame (s := { brackets := 1 }) rfl hname
  refine ⟨s, hread, hs, ?_⟩
  exact Scan.Sound.read ⟨by simp, by simp⟩ hread

/-- A whole tag goes on after its name if the name is tame. -/
theorem Whole.eq_opening_append {tag name after : Text} (h : Whole tag) (hname : isTame name = true)
    (hopens : Opens name (tag ++ after)) :
    ∃ rest, tag = '<' :: (name ++ rest) ∧ endsName rest = true ∧ rest ≠ [] := by
  obtain ⟨hne, hfree, tail, hsplit, hends⟩ := hopens
  obtain ⟨s, hread, -, -⟩ := read_opening hname
  have hopening : '<' :: name <+: tag ++ after := by
    rw [hsplit, ← List.cons_append]
    exact List.prefix_append _ _
  have hlong : ('<' :: name).length < tag.length := by
    by_contra hshort
    obtain ⟨rest, hrest⟩ : tag <+: '<' :: name := by
      exact List.prefix_of_prefix_length_le (List.prefix_append tag after) hopening (by omega)
    obtain ⟨u, s', rfl, hu, hclosed⟩ := h
    rw [← hrest, Scan.read_append, Scan.read_append, hu] at hread
    simp [Scan.read, hclosed] at hread
  obtain ⟨rest, rfl⟩ : '<' :: name <+: tag := by
    exact List.prefix_of_prefix_length_le hopening (List.prefix_append tag after) (by omega)
  have hrest : rest ≠ [] := by
    rintro rfl
    simp at hlong
  refine ⟨rest, rfl, ?_, hrest⟩
  have htail : rest ++ after = tail := by simpa using hsplit
  obtain ⟨c, rest, rfl⟩ := List.exists_cons_of_ne_nil hrest
  rw [← htail] at hends
  exact hends

end TagStamp.Tag
