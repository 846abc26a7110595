import TagStamp.Manifest.Check
import TagStamp.Proofs.Attribute.Assignment
import TagStamp.Proofs.Stamp.Frame
import TagStamp.Proofs.Stamp.OneByOne

namespace TagStamp.Stamp

open Attribute Tag

/-- What a tag has of an identifier, as its quote and its value: nothing of that name at all, or an attribute
that is the first thing of that name, begins a word outside strings, and ends at an unescaped quote on its
line. -/
inductive Bears (tag : Text) : Option (Char × Text) → Prop
  | nothing (habsent : ¬ idAttribute <:+: tag) : Bears tag none
  | identifier {before value after : Text} {quote : Char}
      (hsplit : tag = before ++ idAttribute ++ '=' :: quote :: value ++ quote :: after)
      (hfirst : ∀ m < before.length, ¬ idAttribute <+: tag.drop m)
      (hboundary : atBoundary before.getLast? = true)
      (houtside : ∃ s ∈ ({} : Scan).read before, s.quote = none)
      (hquote : isValueQuote quote = true) (hends : endsBefore quote value = true) (hfeed : '\n' ∉ value) :
      Bears tag (some (quote, value))

namespace Bears

variable {tag : Text} {existing : Option (Char × Text)}

theorem find?_of_first {before value after : Text} {quote : Char}
    (hsplit : tag = before ++ idAttribute ++ '=' :: quote :: value ++ quote :: after)
    (hfirst : ∀ m < before.length, ¬ idAttribute <+: tag.drop m) (hboundary : atBoundary before.getLast? = true)
    (hquote : isValueQuote quote = true) (hends : endsBefore quote value = true) (hfeed : '\n' ∉ value) :
    find? idAttribute tag = some ⟨before, quote, value, after⟩ := by
  subst hsplit
  refine find?_append hboundary hquote hends hfeed fun m hm => ?_
  rw [Option.eq_none_iff_forall_ne_some]
  intro found hfound
  exact hfirst m hm ((List.prefix_append _ _).trans (prefix_drop_of_at? hfound).2)

theorem clear (h : Bears tag existing) : Clear idAttribute tag := by
  intro n quote hbegins
  have hname : idAttribute <+: tag.drop n := (List.prefix_append _ _).trans hbegins.opening
  cases h with
  | nothing habsent => exact absurd (hname.isInfix.trans (List.drop_suffix n tag).isInfix) habsent
  | identifier hsplit hfirst hboundary _ hquote hends hfeed =>
    obtain ⟨m, hm, hbefore, hlength, -⟩ :=
      find?_eq_some_iff.1 (find?_of_first hsplit hfirst hboundary hquote hends hfeed)
    refine ⟨m, ?_, by rw [hm]; rfl⟩
    by_contra hlt
    simp only at hbefore
    exact hfirst n (by rw [hbefore, List.length_take_of_le hlength]; omega) hname

private theorem holds_iff (h : Bears tag existing) (quote : Char) (id : Text) :
    Holds idAttribute quote id tag ↔ existing = some (quote, id) := by
  cases h with
  | nothing habsent =>
    refine iff_of_false ?_ (by simp)
    rintro ⟨found, hfound, -⟩
    rw [find?_eq_none_of_absent habsent] at hfound
    cases hfound
  | identifier hsplit hfirst hboundary _ hquote hends hfeed =>
    have hfind := find?_of_first hsplit hfirst hboundary hquote hends hfeed
    simp [Holds, hfind]

end Bears

/-- A tag begins with its bracket and its name. -/
theorem eq_opening_append_of_extent {name tag after : Text} (hopens : Opens name (tag ++ after)) (hname : '>' ∉ name)
    (hextent : extent (tag ++ after) = tag.length) :
    ∃ rest, tag = '<' :: name ++ rest ∧ endsName (rest ++ after) = true := by
  have hlong := hopens.lt_inner hname
  have hle := inner_le_extent (tag ++ after)
  obtain ⟨-, -, tail, hsplit, hends⟩ := hopens
  obtain ⟨rest, rfl⟩ : '<' :: name <+: tag := by
    apply List.prefix_of_prefix_length_le ⟨tail, by rw [hsplit]; rfl⟩ (List.prefix_append tag after)
    rw [List.length_cons]
    omega
  have htail : rest ++ after = tail := by simpa using hsplit
  exact ⟨rest, rfl, htail ▸ hends⟩

theorem close_notMem_of_isTame {name : Text} (h : isTame name = true) : '>' ∉ name :=
  fun hmem => by simpa using List.all_eq_true.1 h '>' hmem

private theorem endsName_of_append {rest after : Text} (h : endsName (rest ++ after) = true) : endsName rest = true := by
  cases rest with
  | nil => rfl
  | cons c rest => exact h

/-- An exchange inside the tag moves the end of the tag with it. -/
theorem extent_of_exchange {u old new x after : Text} {s : Scan} (hu : ({} : Scan).read u = some s)
    (hold : s.read old = some s) (hnew : s.read new = some s) (holdFree : '\n' ∉ old) (hnewFree : '\n' ∉ new)
    (hextent : extent (u ++ old ++ x ++ after) = (u ++ old ++ x).length) :
    extent (u ++ new ++ x ++ after) = (u ++ new ++ x).length := by
  rw [List.append_assoc (u ++ old)] at hextent
  have hmoved := extent_exchange hu hold hnew holdFree hnewFree (v := x ++ after) (by
    rw [hextent]
    simp only [List.length_append]
    omega)
  rw [hextent] at hmoved
  rw [List.append_assoc (u ++ new)]
  simp only [List.length_append] at hmoved ⊢
  omega

section Assigned

variable {name tag after id : Text}

/-- A tag without an identifier gets one after its name, where the scan is outside strings. -/
theorem assigned_stays_of_absent (habsent : ¬ idAttribute <:+: tag) (hid : Quotable id) (hname : isTame name = true)
    (hopens : Opens name (tag ++ after)) (hextent : extent (tag ++ after) = tag.length) :
    Opens name (assigned tag idAttribute id (1 + name.length) ++ after) ∧
      extent (assigned tag idAttribute id (1 + name.length) ++ after) =
        (assigned tag idAttribute id (1 + name.length)).length := by
  obtain ⟨rest, rfl, -⟩ := eq_opening_append_of_extent hopens (close_notMem_of_isTame hname) hextent
  have hlength : 1 + name.length = ('<' :: name).length := by rw [List.length_cons, Nat.add_comm]
  have hassigned : assigned ('<' :: name ++ rest) idAttribute id (1 + name.length) =
      '<' :: name ++ ' ' :: render idAttribute id ++ rest := by
    rw [assigned, assign_of_find?_none (find?_eq_none_of_absent habsent), Edit.text, hlength, List.take_left,
      List.drop_left]
  rw [hassigned]
  constructor
  · obtain ⟨hne, hfree, -⟩ := hopens
    exact ⟨hne, hfree, ' ' :: render idAttribute id ++ rest ++ after, by simp, by simp [endsName, isBlank_space]⟩
  · obtain ⟨s, hread, hs, hsound⟩ := read_opening hname
    have hnew : s.read (' ' :: render idAttribute id) = some s := by
      rw [Scan.read, Scan.step_plain hs (by decide)]
      exact read_render hsound hs hid
    have hnone : s.read [] = some s := rfl
    refine extent_of_exchange hread hnone hnew (by simp) ?_ (by rwa [List.append_nil])
    simp [hid.feed_notMem_render]

/-- An identifier that is exchanged begins and ends outside strings, after the character that ends the name. -/
theorem assigned_stays_of_found {found : Occurrence} (hfind : find? idAttribute tag = some found)
    (houtside : ∃ s ∈ ({} : Scan).read found.before, s.quote = none)
    (hends : endsBefore found.quote found.value = true) (hid : Quotable id) (hname : isTame name = true)
    (hopens : Opens name (tag ++ after)) (hextent : extent (tag ++ after) = tag.length) :
    Opens name (assigned tag idAttribute id (1 + name.length) ++ after) ∧
      extent (assigned tag idAttribute id (1 + name.length) ++ after) =
        (assigned tag idAttribute id (1 + name.length)).length := by
  rw [assigned, assign_of_find? hfind]
  split
  · exact ⟨hopens, hextent⟩
  obtain ⟨rest, htag, hnameEnds⟩ := eq_opening_append_of_extent hopens (close_notMem_of_isTame hname) hextent
  obtain ⟨hsplit, hfeed⟩ := eq_of_find?_eq_some hfind
  obtain ⟨n, hn, -⟩ := find?_eq_some_iff.1 hfind
  obtain ⟨-, -, hquote, -⟩ := here?_eq_some_iff.1 hn
  constructor
  · rw [htag] at hfind
    obtain ⟨c, more, hbefore, hc⟩ := exists_before_of_find? hname (endsName_of_append hnameEnds) hfind
    obtain ⟨hne, hfree, -⟩ := hopens
    refine ⟨hne, hfree, c :: more ++ render idAttribute id ++ found.after ++ after, ?_, hc _⟩
    simp [Edit.text, hbefore]
  · obtain ⟨s, hread, hs⟩ := houtside
    have hsound := Scan.sound_initial.read hread
    have hold := Scan.read_attribute hsound hs isPlain_of_mem_idAttribute (isQuote_of_isValueQuote hquote) hends
    have hcut : tag = found.before ++ (idAttribute ++ '=' :: found.quote :: found.value ++ [found.quote]) ++
        found.after := by
      rw [hsplit]
      simp
    refine extent_of_exchange hread hold (read_render hsound hs hid) ?_ hid.feed_notMem_render (hcut ▸ hextent)
    have hne := (isValueQuote_ne hquote).2.symm
    simp [feed_notMem_idAttribute, hfeed, hne]

/-- A tag that was given an identifier still opens, and the scan still finds its end. -/
theorem Bears.assigned_stays {existing : Option (Char × Text)} (h : Bears tag existing) (hid : Quotable id)
    (hname : isTame name = true) (hopens : Opens name (tag ++ after))
    (hextent : extent (tag ++ after) = tag.length) :
    Opens name (assigned tag idAttribute id (1 + name.length) ++ after) ∧
      extent (assigned tag idAttribute id (1 + name.length) ++ after) =
        (assigned tag idAttribute id (1 + name.length)).length := by
  cases h with
  | nothing habsent => exact assigned_stays_of_absent habsent hid hname hopens hextent
  | identifier hsplit hfirst hboundary houtside hquote hends hfeed =>
    exact assigned_stays_of_found (find?_of_first hsplit hfirst hboundary hquote hends hfeed) houtside hends hid
      hname hopens hextent

end Assigned

namespace Target

/-- The target with another identifier. -/
def withId (t : Target) (id : Text) : Target :=
  { t with agentId := id }

/-- A target leads to a tag of its name from the same column, whatever the tag is exchanged for. -/
theorem bracket?_exchange {p q q' name : Text} {t : Target} {k : Nat} (hnamed : t.tagName.chars? = some name)
    (hposition : Text.position p = (t.lineIndex, k)) (hbracket : bracket? (Text.lines (p ++ q)) t = some k)
    (hopens : Opens name q') : bracket? (Text.lines (p ++ q')) t = some k := by
  have hlast : (Text.lastLine p).length = k := by
    rw [Text.position_eq, Prod.mk.injEq] at hposition
    exact hposition.2
  have hline (q : Text) : (Text.lines (p ++ q)).getD t.lineIndex [] = Text.lastLine p ++ Text.firstLine q := by
    have hat := Text.getD_lines_append p q
    rwa [hposition] at hat
  rw [Stamp.bracket?, hnamed, hline, Option.bind_some, ← hlast] at hbracket ⊢
  exact hopens.start?_of_start? hbracket

end Target

/-- A run with one target edits the tag that the target leads to, and nothing else. -/
theorem text_run_singleton {p name : Text} {t : Target} {k : Nat} (q : Text) (hline : 1 ≤ t.line)
    (hnamed : t.tagName.chars? = some name) (hposition : Text.position p = (t.lineIndex, k))
    (hbracket : bracket? (Text.lines (p ++ q)) t = some k) :
    (run (p ++ q) [t]).text =
      p ++ assigned (q.take (extent q)) idAttribute t.agentId (1 + name.length) ++ q.drop (extent q) := by
  have hplace := place_lines_append (t := t) q hline (by rw [hbracket]; exact hposition)
  rw [hbracket, Option.map_some, Target.tagName_length_of_chars? hnamed] at hplace
  rw [run_singleton, Pass.result, Pass.step, hplace, assigned]
  cases assign (q.take (extent q)) idAttribute t.agentId (some (1 + name.length)) with
  | unplaced => simp [Placement.ofEdit, Pass.note, Edit.text, Text.unlines_lines]
  | kept => simp [Placement.ofEdit, Edit.text, Text.unlines_lines]
  | updated x => simp [Placement.ofEdit, Edit.text, Text.unlines_lines]
  | inserted x malformed => simp [Placement.ofEdit, Edit.text, Text.unlines_lines]

theorem Quotable.of_isAgentId {id : Text} (h : Manifest.isAgentId id = true) : Quotable id := by
  have hall : ∀ c ∈ id, Manifest.isIdRest c = true := by
    cases id with
    | nil => simp
    | cons first rest =>
      rw [Manifest.isAgentId, Bool.and_eq_true, List.all_eq_true] at h
      rw [List.forall_mem_cons]
      exact ⟨by simp [Manifest.isIdRest, h.1], h.2⟩
  exact ⟨fun hmem => absurd (hall _ hmem) (by decide), fun hmem => absurd (hall _ hmem) (by decide),
    fun hmem => absurd (hall _ hmem) (by decide)⟩

/-- Giving a tag one identifier and then another one leaves the same text as giving it the other one at once,
unless that one stood there in single quotes and was exchanged for the first. The tag may be closed or not; what
it has of an identifier must not mislead the scan or the search. -/
theorem renaming_leaves_no_trace {source : Text} {t : Target} {k : Nat} {existing : Option (Char × Text)}
    {v w : Text} (hline : 1 ≤ t.line) (hlocated : bracket? (Text.lines source) t = some k)
    (htame : ∀ name ∈ t.tagName.chars?, isTame name = true)
    (hbears : Bears (t.tagText (Text.lines source)) existing) (hv : Manifest.isAgentId v = true)
    (hw : Manifest.isAgentId w = true) :
    (run (run source [t.withId v]).text [t.withId w]).text = (run source [t.withId w]).text ↔
      v = w ∨ existing ≠ some ('\x27', w) := by
  obtain ⟨p, q, rfl, hposition⟩ := (Target.inRange_of_bracket? hline hlocated).exists_split
  have htag := Target.tagText_of_position hposition
  rw [htag] at hbears
  rw [hlocated, Option.getD_some] at hposition
  obtain ⟨name, hnamed, hopens⟩ := Target.opens_of_bracket? hlocated hposition
  have hsplit : q.take (extent q) ++ q.drop (extent q) = q := List.take_append_drop _ q
  have hextent : extent (q.take (extent q) ++ q.drop (extent q)) = (q.take (extent q)).length := by
    rw [hsplit, List.length_take_of_le (extent_le_length q)]
  have hvPlain := Quotable.of_isAgentId hv
  have hwPlain := Quotable.of_isAgentId hw
  have hopensTag : Opens name (q.take (extent q) ++ q.drop (extent q)) := by
    rw [hsplit]
    exact hopens
  obtain ⟨hopens', hextent'⟩ := hbears.assigned_stays hvPlain (htame name hnamed) hopensTag hextent
  have hlocated' := Target.bracket?_exchange hnamed hposition hlocated hopens'
  have hfirst (id : Text) := text_run_singleton (t := t.withId id) q hline hnamed hposition hlocated
  have hsecond := text_run_singleton (t := t.withId w) _ hline hnamed hposition hlocated'
  rw [hextent', List.take_left, List.drop_left] at hsecond
  rw [hfirst, hfirst, List.append_assoc p]
  change (run (p ++ (assigned (q.take (extent q)) idAttribute v (1 + name.length) ++ q.drop (extent q)))
    [t.withId w]).text = _ ↔ _
  rw [hsecond, List.append_cancel_right_eq, List.append_cancel_left_eq]
  have hlaw := assigned_assigned_iff (by decide) hbears.clear
    ⟨hvPlain.endsBefore, hvPlain.feed⟩ ⟨hwPlain.endsBefore, hwPlain.feed⟩ (1 + name.length)
  rw [hbears.holds_iff] at hlaw
  exact hlaw

/-- A tag over two lines, with an identifier in single quotes in the second of them. -/
def spreadTag : Text :=
  "<p><a\n data-agent-id='old' b='>'>".toList

/-- A target for the second tag, one column off. -/
def spreadTarget : Target :=
  { agentId := [], line := 1, column := 5, type := "a".toList }

/-- A later identifier takes the place of an earlier one. The one that stood in single quotes comes back in double
ones, unless nothing was written in between. -/
theorem renaming_leaves_no_trace_in_spreadTag :
    Bears (spreadTarget.tagText (Text.lines spreadTag)) (some ('\x27', "old".toList)) ∧
      (run (run spreadTag [spreadTarget.withId "x".toList]).text [spreadTarget.withId "y".toList]).text =
        (run spreadTag [spreadTarget.withId "y".toList]).text ∧
      (run spreadTag [spreadTarget.withId "y".toList]).text = "<p><a\n data-agent-id=\"y\" b='>'>".toList ∧
      (run (run spreadTag [spreadTarget.withId "x".toList]).text [spreadTarget.withId "old".toList]).text ≠
        (run spreadTag [spreadTarget.withId "old".toList]).text := by
  have hsplit : spreadTarget.tagText (Text.lines spreadTag) =
      "<a\n ".toList ++ idAttribute ++ '=' :: '\x27' :: "old".toList ++ '\x27' :: " b='>'>".toList := by
    decide +kernel
  have hbears : Bears (spreadTarget.tagText (Text.lines spreadTag)) (some ('\x27', "old".toList)) :=
    .identifier hsplit (by decide +kernel) (by decide +kernel) ⟨_, rfl, by decide +kernel⟩ (by decide +kernel)
      (by decide +kernel) (by decide +kernel)
  have hlocated : bracket? (Text.lines spreadTag) spreadTarget = some 3 := by decide +kernel
  have hlaw {w : Text} (hw : Manifest.isAgentId w = true) :=
    renaming_leaves_no_trace (v := "x".toList) (by decide) hlocated (by decide +kernel) hbears (by decide) hw
  refine ⟨hbears, (hlaw (by decide)).2 (by decide), ?_, mt (hlaw (by decide)).1 (by decide)⟩
  rw [run_singleton]
  decide +kernel

end TagStamp.Stamp
