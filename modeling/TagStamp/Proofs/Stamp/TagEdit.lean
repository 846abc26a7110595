import TagStamp.Proofs.Attribute.Assignment
import TagStamp.Proofs.Stamp.Splice
import TagStamp.Proofs.Tag.Whole

namespace TagStamp.Stamp

open Attribute Tag

/-- The first identifier in the text of a tag is the given one. -/
def Carries (id tag : Text) : Prop :=
  ∃ found, find? idAttribute tag = some found ∧ found.value = id

theorem assign_eq_kept_iff {tag id : Text} {place : Option Nat} :
    assign tag idAttribute id place = .kept ↔ Carries id tag := by
  unfold assign Carries
  cases hfind : find? idAttribute tag with
  | none => cases place <;> simp
  | some found =>
    by_cases hvalue : found.value = id
    · simp [hvalue]
    · simp [hvalue]

/-- A target is skipped exactly if the text it selects has its identifier first. -/
theorem place_eq_kept_iff {lines : List Text} {t : Target} :
    place lines t = .kept ↔ t.InRange lines ∧ Carries t.agentId (t.tagText lines) := by
  by_cases hrange : t.InRange lines
  · rw [place_eq hrange, ← @assign_eq_kept_iff _ _ ((bracket? lines t).map fun _ => 1 + t.tagName.length)]
    simp only [hrange, true_and]
    split <;> simp_all
  · simp [place_of_not_inRange hrange, hrange]

/-- An identifier that can stand in double quotes on one line. -/
@[mk_iff]
structure Quotable (id : Text) : Prop where
  quote : '\x22' ∉ id
  slash : '\\' ∉ id
  feed : '\n' ∉ id

instance (id : Text) : Decidable (Quotable id) :=
  decidable_of_iff _ (quotable_iff id).symm

theorem Quotable.endsBefore {id : Text} (h : Quotable id) : endsBefore '\x22' id = true :=
  endsBefore_of_notMem h.quote h.slash

theorem isPlain_of_mem_idAttribute : ∀ c ∈ idAttribute, isPlain c = true :=
  List.all_eq_true.1 (by decide)

theorem feed_notMem_idAttribute : '\n' ∉ idAttribute := by
  decide

theorem Quotable.feed_notMem_render {id : Text} (h : Quotable id) : '\n' ∉ render idAttribute id := by
  simp only [render, List.mem_append, List.mem_cons, List.not_mem_nil, not_or, or_false]
  exact ⟨⟨feed_notMem_idAttribute, by decide, by decide, h.feed⟩, by decide⟩

/-- The scan passes over a written identifier. -/
theorem read_render {s : Scan} (hsound : s.Sound) (hs : s.quote = none) {id : Text} (hid : Quotable id) :
    s.read (render idAttribute id) = some s := by
  rw [render]
  exact Scan.read_attribute hsound hs isPlain_of_mem_idAttribute rfl hid.endsBefore

theorem isQuote_of_isValueQuote {quote : Char} (h : isValueQuote quote = true) : isQuote quote = true := by
  simp only [isValueQuote, Bool.or_eq_true] at h
  simp only [isQuote, Bool.or_eq_true]
  exact .inl h

private theorem endsName_of_mem_idAttribute {c : Char} (hc : c ∈ idAttribute ++ ['=']) : endsName [c] = false := by
  have hall : ((idAttribute ++ ['=']).all fun c => !endsName [c]) = true := by decide +kernel
  simpa using List.all_eq_true.1 hall c hc

/-- In a tag with a tame name, identifiers start after the name and the character that ends it. -/
theorem lt_of_at?_eq_some {name rest : Text} (hname : isTame name = true) (hends : endsName rest = true) {m : Nat}
    {found : Occurrence} (h : at? idAttribute ('<' :: name ++ rest) m = some found) : name.length + 1 < m := by
  obtain ⟨hquote, hstart⟩ := prefix_drop_of_at? h
  by_contra hnot
  rw [List.drop_append_of_le_length (by simp only [List.length_cons]; omega)] at hstart
  by_cases hshort : (idAttribute ++ ['=', found.quote]).length ≤ (('<' :: name).drop m).length
  · -- The quote would be a character of the name.
    have hinside := List.prefix_of_prefix_length_le hstart (List.prefix_append _ _) hshort
    have hmem : found.quote ∈ '<' :: name := List.mem_of_mem_drop (hinside.subset (by simp))
    rw [List.mem_cons] at hmem
    obtain hbracket | hmem := hmem
    · rw [hbracket] at hquote
      simp [isValueQuote] at hquote
    · have htame := List.all_eq_true.1 hname _ hmem
      simp [isQuote_of_isValueQuote hquote] at htame
  · -- The character that ends the name would be one of the identifier's.
    cases rest with
    | nil =>
      rw [List.append_nil] at hstart
      exact hshort hstart.length_le
    | cons c rest =>
      have hover : ('<' :: name).drop m ++ [c] <+: idAttribute ++ ['=', found.quote] := by
        apply List.prefix_of_prefix_length_le (by simp) hstart
        simp only [List.length_append, List.length_singleton] at hshort ⊢
        omega
      have hmem : c ∈ idAttribute ++ ['='] ++ [found.quote] := by
        have hsubset := hover.subset (List.mem_append_right _ (List.mem_singleton_self c))
        simpa using hsubset
      rw [List.mem_append, List.mem_singleton] at hmem
      change endsName [c] = true at hends
      obtain hmem | rfl := hmem
      · rw [endsName_of_mem_idAttribute hmem] at hends
        cases hends
      · simp only [isValueQuote, Bool.or_eq_true, beq_iff_eq] at hquote
        obtain hc | hc := hquote <;>
          simp [hc, endsName, Text.isBlank, Text.inRanges, Text.blankRanges] at hends

/-- An identifier that is found in a tag stands behind the character that ends the name. -/
theorem exists_before_of_find? {name rest : Text} (hname : isTame name = true) (hends : endsName rest = true)
    {found : Occurrence} (h : find? idAttribute ('<' :: name ++ rest) = some found) :
    ∃ c more, found.before = '<' :: name ++ c :: more ∧ ∀ u, endsName (c :: u) = true := by
  obtain ⟨n, hn, hbefore, hlength, -⟩ := find?_eq_some_iff.1 h
  have hlt := lt_of_at?_eq_some hname hends hn
  obtain ⟨k, rfl⟩ : ∃ k, n = ('<' :: name).length + (k + 1) :=
    ⟨n - name.length - 2, by rw [List.length_cons]; omega⟩
  cases rest with
  | nil =>
    rw [List.append_nil] at hlength
    omega
  | cons c rest =>
    rw [List.take_length_add_append, List.take_succ_cons] at hbefore
    exact ⟨c, rest.take k, hbefore, fun _ => hends⟩

/-- An identifier written right after the tag name is the first one of the tag, as the name has no quotes. -/
theorem carries_insertion {name rest id : Text} (hname : isTame name = true) (hid : Quotable id) :
    Carries id ('<' :: name ++ ' ' :: render idAttribute id ++ rest) := by
  refine ⟨_, find?_inserted (by decide) hid.endsBefore hid.feed (fun m quote hbegins => ?_) rest, rfl⟩
  have hmem : quote ∈ '<' :: name := List.mem_of_mem_drop (hbegins.opening.subset (by simp))
  have hquote := isQuote_of_isValueQuote hbegins.quoted
  obtain rfl | hmem := List.mem_cons.1 hmem
  · exact absurd hquote (by decide)
  · have htame := List.all_eq_true.1 hname quote hmem
    simp [hquote] at htame

/-- A whole tag that has no identifier is a whole tag with one. -/
theorem whole_insertion {name rest id : Text} (hname : isTame name = true) (hid : Quotable id)
    (hwhole : Whole ('<' :: (name ++ rest))) :
    Whole ('<' :: name ++ ' ' :: render idAttribute id ++ rest) := by
  obtain ⟨s, hread, hs, hsound⟩ := read_opening hname
  have hnew : s.read (' ' :: render idAttribute id) = some s := by
    rw [Scan.read, Scan.step_plain hs (by decide)]
    exact read_render hsound hs hid
  have hempty : Whole ('<' :: name ++ [] ++ rest) := by simpa using hwhole
  exact (hempty.exchange hread rfl hnew).2

theorem Target.tagName_length_of_chars? {t : Target} {name : Text} (h : t.tagName.chars? = some name) :
    t.tagName.length = name.length := by
  cases htag : t.tagName with
  | text chars =>
    rw [htag, CodeString.chars?_text, Option.some.injEq] at h
    rw [CodeString.length_text, ← h, String.length_toList]
  | unpaired codes => simp [htag, CodeString.chars?] at h

/-- A target that leads to a whole tag between two parts of a text. -/
structure Target.LeadsTo (t : Target) (name before tag after : Text) : Prop where
  named : t.tagName.chars? = some name
  tame : isTame name = true
  line : t.line = (Text.position before).1 + 1
  found : start? (Text.lastLine before ++ Text.firstLine (tag ++ after)) t.column name =
    some (Text.lastLine before).length
  whole : Whole tag

namespace Target.LeadsTo

variable {t : Target} {name before tag after : Text}

theorem tagName_length (h : t.LeadsTo name before tag after) : t.tagName.length = name.length :=
  tagName_length_of_chars? h.named

theorem lineIndex (h : t.LeadsTo name before tag after) : t.lineIndex = (Text.position before).1 := by
  have := h.line
  rw [Target.lineIndex]
  omega

theorem opens (h : t.LeadsTo name before tag after) : Opens name (tag ++ after) :=
  opens_of_start? h.found

theorem eq_opening_append (h : t.LeadsTo name before tag after) :
    ∃ rest, tag = '<' :: (name ++ rest) ∧ endsName rest = true ∧ rest ≠ [] :=
  h.whole.eq_opening_append h.tame h.opens

/-- Whatever becomes of the tag and of the text after it, the target leads there as long as the tag is
whole and has the name. -/
theorem exchange (h : t.LeadsTo name before tag after) {tag' after' : Text} (hwhole : Whole tag')
    (hopens : Opens name (tag' ++ after')) : t.LeadsTo name before tag' after' :=
  ⟨h.named, h.tame, h.line, hopens.start?_of_start? h.found, hwhole⟩

/-- A whole tag opens whatever follows it. -/
theorem opens_before (h : t.LeadsTo name before tag after) (after' : Text) : Opens name (tag ++ after') := by
  obtain ⟨rest, htag, hends, hrest⟩ := h.eq_opening_append
  obtain ⟨hne, hfree, -⟩ := h.opens
  rw [htag]
  exact Tag.opens_append hne hfree hends hrest after'

theorem bracket? (h : t.LeadsTo name before tag after) :
    bracket? (Text.lines (before ++ tag ++ after)) t = some (Text.lastLine before).length := by
  rw [Stamp.bracket?, h.named, h.lineIndex, List.append_assoc, Text.getD_lines_append]
  exact h.found

/-- The edit is made on the text of the tag alone. -/
theorem place (h : t.LeadsTo name before tag after) :
    place (Text.lines (before ++ tag ++ after)) t =
      Placement.ofEdit before after (assign tag idAttribute t.agentId (some (1 + name.length))) := by
  have hbracket := h.bracket?
  have hline := h.line
  rw [List.append_assoc] at hbracket ⊢
  rw [place_lines_append (tag ++ after) (by omega) (by rw [hbracket, h.lineIndex, Text.position_eq]; rfl),
    hbracket, h.whole.extent_append, List.take_left, List.drop_left, h.tagName_length]
  rfl

theorem place_of_carries (h : t.LeadsTo name before tag after) (hcarries : Carries t.agentId tag) :
    Stamp.place (Text.lines (before ++ tag ++ after)) t = .kept := by
  rw [h.place, assign_eq_kept_iff.2 hcarries]
  rfl

/-- A tag without an identifier gets it right after its name. -/
theorem place_of_fresh (h : t.LeadsTo name before tag after) {rest : Text} (htag : tag = '<' :: (name ++ rest))
    (hfresh : find? idAttribute tag = none) :
    ∃ edit, Stamp.place (Text.lines (before ++ tag ++ after)) t =
      .placed (Text.lines (before ++ ('<' :: name ++ ' ' :: render idAttribute t.agentId ++ rest) ++ after))
        edit := by
  have hassign : assign tag idAttribute t.agentId (some (1 + name.length)) =
      .inserted ('<' :: name ++ ' ' :: render idAttribute t.agentId ++ rest)
        (Attribute.opens idAttribute tag) := by
    have htake : tag.take (1 + name.length) = '<' :: name := by
      rw [htag, Nat.add_comm, List.take_succ_cons, List.take_left]
    have hdrop : tag.drop (1 + name.length) = rest := by
      rw [htag, Nat.add_comm, List.drop_succ_cons, List.drop_left]
    rw [assign, hfresh]
    simp [htake, hdrop]
  rw [h.place, hassign]
  exact ⟨_, rfl⟩

end Target.LeadsTo

/-- A target that leads to the bracket of a tag with a close leads to a whole tag. -/
theorem Target.exists_leadsTo {source : Text} {t : Target} {k : Nat} {close : Nat × Nat} (hline : 1 ≤ t.line)
    (htame : ∀ name ∈ t.tagName.chars?, isTame name = true) (hbracket : bracket? (Text.lines source) t = some k)
    (hclose : close? (Text.lines source) t.lineIndex k = some close) :
    ∃ name before tag after, source = before ++ tag ++ ['>'] ++ after ∧
      t.LeadsTo name before (tag ++ ['>']) after ∧ Text.position before = (t.lineIndex, k) ∧
      Text.position (before ++ tag) = close ∧ t.tagText (Text.lines source) = tag ++ ['>'] := by
  obtain ⟨before, q, rfl, hposition⟩ := (inRange_of_bracket? hline hbracket).exists_split
  have htext := tagText_of_position hposition
  rw [hbracket, Option.getD_some] at hposition
  have hflat := close?_lines_append before q
  rw [hposition] at hflat
  simp only [hclose] at hflat
  cases hscan : ({} : Scan).line 0 q with
  | inr s => simp [hscan] at hflat
  | inl n =>
    obtain ⟨tag, after, s, rfl, hn, hread, hclosed⟩ := Scan.exists_of_line_inl hscan
    rw [Nat.zero_add] at hn
    have hwhole : Whole (tag ++ ['>']) := ⟨tag, s, rfl, hread, hclosed⟩
    have hextent := hwhole.extent_append after
    have hcut : tag ++ '>' :: after = tag ++ ['>'] ++ after := by simp
    rw [hcut, hextent, List.take_left] at htext
    simp only [hscan, Option.some.injEq, hn, List.take_left] at hflat
    obtain ⟨name, hnamed, hstart⟩ := Option.bind_eq_some_iff.1 hbracket
    have hlineText := Text.getD_lines_append before (tag ++ '>' :: after)
    have hcolumn : (Text.lastLine before).length = k := by
      rw [Text.position_eq, Prod.mk.injEq] at hposition
      exact hposition.2
    rw [hposition] at hlineText
    rw [hlineText, hcut, ← hcolumn] at hstart
    refine ⟨name, before, tag, after, by simp, ⟨hnamed, htame name hnamed, ?_, hstart, hwhole⟩, hposition,
      hflat.symm, by rw [← htext, hcut]⟩
    rw [hposition, lineIndex]
    simp only
    omega

end TagStamp.Stamp
