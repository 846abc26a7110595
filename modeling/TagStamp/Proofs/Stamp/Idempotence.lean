import TagStamp.Manifest.Check
import TagStamp.Proofs.Stamp.Run
import TagStamp.Proofs.Stamp.TagEdit

namespace TagStamp.Stamp

open Attribute Tag

/-- The first identifier of a tag, if it has one, is the first thing of that name in the tag, it begins
outside strings, and its value ends where the string does. -/
def Tidy (tag : Text) : Prop :=
  ∀ found ∈ find? idAttribute tag, (∀ m < found.before.length, ¬ idAttribute <+: tag.drop m) ∧
    (∃ s ∈ ({} : Scan).read found.before, s.quote = none) ∧ endsBefore found.quote found.value = true

instance (tag : Text) : Decidable (Tidy tag) :=
  inferInstanceAs (Decidable (∀ found ∈ find? idAttribute tag, _ ∧ _ ∧ _))

/-- An identifier that takes the place of the first one is the first one. -/
theorem carries_update {tag id : Text} {found : Occurrence} (hfound : find? idAttribute tag = some found)
    (hfirst : ∀ m < found.before.length, ¬ idAttribute <+: tag.drop m) (hid : Quotable id) :
    Carries id (found.before ++ render idAttribute id ++ found.after) := by
  refine ⟨_, find?_exchanged hfound (fun m hm quote hbegins => hfirst m hm ?_) hid.endsBefore hid.feed, rfl⟩
  exact (List.prefix_append _ _).trans hbegins.opening

/-- The exchange of a tidy identifier leaves the tag whole, on as many lines as before. -/
theorem whole_update {tag id : Text} {found : Occurrence} (htag : Whole tag)
    (hfound : find? idAttribute tag = some found) (htidy : Tidy tag) (hid : Quotable id) :
    Whole (found.before ++ render idAttribute id ++ found.after) ∧
      (found.before ++ render idAttribute id ++ found.after).count '\n' = tag.count '\n' := by
  obtain ⟨-, ⟨s, hread, hs⟩, hends⟩ := htidy found hfound
  obtain ⟨hsplit, hfree⟩ := eq_of_find?_eq_some hfound
  obtain ⟨n, hn, -⟩ := find?_eq_some_iff.1 hfound
  have hquote : isValueQuote found.quote = true := (here?_eq_some_iff.1 hn).2.2.1
  have hsound := Scan.sound_initial.read hread
  have hold := Scan.read_attribute hsound hs isPlain_of_mem_idAttribute (isQuote_of_isValueQuote hquote) hends
  have hcut : tag = found.before ++ (idAttribute ++ '=' :: found.quote :: found.value ++ [found.quote]) ++
      found.after := by
    rw [hsplit]
    simp
  refine ⟨(Whole.exchange (hcut ▸ htag) hread hold (read_render hsound hs hid)).2, ?_⟩
  have hnew := List.count_eq_zero.2 hid.feed_notMem_render
  have hgone : (idAttribute ++ '=' :: found.quote :: found.value ++ [found.quote]).count '\n' = 0 := by
    have hne := (isValueQuote_ne hquote).2.symm
    rw [List.count_eq_zero]
    simp only [List.mem_append, List.mem_cons, List.not_mem_nil, or_false, not_or]
    exact ⟨⟨feed_notMem_idAttribute, by decide, hne, hfree⟩, hne⟩
  rw [hcut]
  simp only [List.count_append] at hnew hgone ⊢
  omega

/-- The step for a target that leads to a tidy tag gives this tag the identifier. The tag stays whole, keeps
its name, and takes as many lines as before. -/
theorem Target.LeadsTo.exists_stamped {t : Target} {name before tag after : Text}
    (h : t.LeadsTo name before tag after) (hid : Quotable t.agentId) (htidy : Tidy tag) {p : Pass}
    (hlines : p.lines = Text.lines (before ++ tag ++ after)) :
    ∃ tag', (p.step t).lines = Text.lines (before ++ tag' ++ after) ∧ Whole tag' ∧
      tag'.count '\n' = tag.count '\n' ∧ Carries t.agentId tag' ∧ ∀ after', Opens name (tag' ++ after') := by
  obtain ⟨rest, htag, hends, hrest⟩ := h.eq_opening_append
  obtain ⟨hne, hfree, -⟩ := h.opens
  cases hfind : find? idAttribute tag with
  | none =>
    obtain ⟨edit, hplace⟩ := h.place_of_fresh htag hfind
    rw [← hlines] at hplace
    refine ⟨_, (Pass.step_of_placed hplace).1, whole_insertion h.tame hid (htag ▸ h.whole), ?_,
      carries_insertion h.tame hid, ?_⟩
    · have hnew := List.count_eq_zero.2 hid.feed_notMem_render
      rw [htag]
      simp [hnew]
    · intro after'
      have hblank : endsName (' ' :: render idAttribute t.agentId ++ rest) = true := by
        simp [endsName, isBlank_space]
      simpa using opens_append hne hfree hblank (by simp) after'
  | some found =>
    by_cases hvalue : found.value = t.agentId
    · have hcarries : Carries t.agentId tag := ⟨found, hfind, hvalue⟩
      have hplace := h.place_of_carries hcarries
      rw [← hlines] at hplace
      refine ⟨tag, ?_, h.whole, rfl, hcarries, h.opens_before⟩
      rw [Pass.step_of_kept hplace]
      exact hlines
    · have hassign : assign tag idAttribute t.agentId (some (1 + name.length)) =
          .updated (found.before ++ render idAttribute t.agentId ++ found.after) := by
        simp [assign, hfind, hvalue]
      have hplace := h.place
      rw [hassign, ← hlines] at hplace
      obtain ⟨hwhole, hfeeds⟩ := whole_update h.whole hfind htidy hid
      refine ⟨_, (Pass.step_of_placed hplace).1, hwhole, hfeeds,
        carries_update hfind (htidy found hfind).1 hid, ?_⟩
      intro after'
      rw [htag, ← List.cons_append] at hfind
      obtain ⟨c, more, hbefore, hc⟩ := exists_before_of_find? h.tame hends hfind
      have hopens := opens_append hne hfree (hc (more ++ render idAttribute t.agentId ++ found.after)) (by simp) after'
      rw [hbefore]
      simpa using hopens

namespace Target

/-- The target leads to a whole tag of the text that ends on the given line and is as described. -/
def StandsIn (t : Target) (text : Text) (last : Nat) (P : Text → Prop) : Prop :=
  ∃ name before tag after, text = before ++ tag ++ after ∧ t.LeadsTo name before tag after ∧
    (Text.position (before ++ tag)).1 = last ∧ P tag

/-- A tag stays where it is when another one is edited that shares no line with it. -/
theorem StandsIn.exchange {t : Target} {before tag tag' after : Text} {last : Nat} {P : Text → Prop}
    (h : t.StandsIn (before ++ tag ++ after) last P) (hfeeds : tag'.count '\n' = tag.count '\n')
    (hapart : last < (Text.position before).1 ∨ (Text.position (before ++ tag)).1 < t.lineIndex) :
    t.StandsIn (before ++ tag' ++ after) last P := by
  obtain ⟨name, before', tag'', after', hsplit, hleads, hlast, hP⟩ := h
  obtain habove | hbelow := hapart
  · have hleft : before' ++ tag'' <+: before ++ tag ++ after := ⟨after', hsplit.symm⟩
    have hright : before <+: before ++ tag ++ after := ⟨tag ++ after, by simp⟩
    obtain ⟨gap, rfl, -⟩ := Text.exists_gap_of_position_lt hleft hright (by rwa [hlast])
    have hleads' := hleads.exchange hleads.whole (hleads.opens_before (gap ++ tag' ++ after))
    exact ⟨name, before', tag'', gap ++ tag' ++ after, by simp, hleads', hlast, hP⟩
  · have hdown : (Text.position (before ++ tag)).1 < (Text.position before').1 := by rwa [← hleads.lineIndex]
    have hright : before' <+: before ++ tag ++ after := ⟨tag'' ++ after', by simp [hsplit]⟩
    obtain ⟨gap, rfl, hgap⟩ := Text.exists_gap_of_position_lt (List.prefix_append _ _) hright hdown
    -- A line ends between the two tags, so neither the line nor what stands on it before the tag changes.
    have hposition : Text.position (before ++ tag' ++ gap) = Text.position (before ++ tag ++ gap) := by
      rw [Text.position_append, Text.position_append (before ++ tag)]
      have hline : (Text.position (before ++ tag')).1 = (Text.position (before ++ tag)).1 := by
        simp only [Text.position_append, Text.advance_fst, hfeeds]
      rw [← Prod.mk.eta (p := Text.position (before ++ tag')), hline]
      exact Text.advance_of_mem hgap _ _ _
    have hlastLine : Text.lastLine (before ++ tag' ++ gap) = Text.lastLine (before ++ tag ++ gap) := by
      rw [Text.lastLine_append, if_pos hgap, Text.lastLine_append, if_pos hgap]
    have hafter : after = gap ++ tag'' ++ after' := by
      simpa using hsplit
    refine ⟨name, before ++ tag' ++ gap, tag'', after', by simp [hafter], ⟨hleads.named, hleads.tame, ?_, ?_,
      hleads.whole⟩, ?_, hP⟩
    · rw [hposition]
      exact hleads.line
    · rw [hlastLine]
      exact hleads.found
    · rw [Text.position_append, hposition, ← Text.position_append]
      exact hlast

/-- The line on which the tag of a target closes. -/
def lastLine (lines : List Text) (t : Target) : Nat :=
  closeLine lines t.lineIndex ((bracket? lines t).getD 0)

/-- The target leads to a tag with a close, and neither the name of the tag nor an identifier that it has
already can mislead a scan. -/
@[mk_iff]
structure Steady (source : Text) (t : Target) : Prop where
  line : 1 ≤ t.line
  closes : ∃ k ∈ bracket? (Text.lines source) t, (close? (Text.lines source) t.lineIndex k).isSome
  tame : ∀ name ∈ t.tagName.chars?, isTame name = true
  tidy : Tidy (t.tagText (Text.lines source))
  quotable : Quotable t.agentId

instance (source : Text) (t : Target) : Decidable (t.Steady source) :=
  decidable_of_iff _ (steady_iff source t).symm

/-- The tags of two targets have no line in common. -/
def LinesApart (lines : List Text) (a b : Target) : Prop :=
  a.lastLine lines < b.lineIndex ∨ b.lastLine lines < a.lineIndex

instance (lines : List Text) (a b : Target) : Decidable (a.LinesApart lines b) :=
  inferInstanceAs (Decidable (_ ∨ _))

theorem Steady.standsIn {source : Text} {t : Target} (h : t.Steady source) :
    t.StandsIn source (t.lastLine (Text.lines source)) Tidy ∧ t.lineIndex ≤ t.lastLine (Text.lines source) := by
  obtain ⟨k, hbracket, hcloses⟩ := h.closes
  obtain ⟨close, hclose⟩ := Option.isSome_iff_exists.1 hcloses
  obtain ⟨name, before, tag, after, hsource, hleads, hposition, hend, htext⟩ :=
    exists_leadsTo h.line h.tame hbracket hclose
  have hlast : t.lastLine (Text.lines source) = close.1 := by
    rw [Option.mem_def] at hbracket
    rw [lastLine, closeLine, hbracket, Option.getD_some, hclose]
    rfl
  have htidy := h.tidy
  rw [htext] at htidy
  refine ⟨⟨name, before, tag ++ ['>'], after, by simp [hsource], hleads, ?_, htidy⟩, ?_⟩
  · rw [hlast, ← hend, ← List.append_assoc, Text.position_append (before ++ tag)]
    rfl
  · rw [hlast, ← hend, Text.position_append, hposition, Text.advance_fst]
    omega

end Target

/-- Going on with the targets that are left, from the bottom up, every one of them gets its identifier, and
the tags that have theirs keep it where it is. -/
theorem standsIn_foldl {left done : List Target} {current : Text} {p : Pass} {last : Target → Nat}
    (hlines : p.lines = Text.lines current)
    (hdone : ∀ d ∈ done, d.StandsIn current (last d) (Carries d.agentId))
    (hleft : ∀ t ∈ left, t.StandsIn current (last t) Tidy ∧ Quotable t.agentId)
    (hbelow : ∀ d ∈ done, ∀ t ∈ left, last t < d.lineIndex)
    (horder : left.Pairwise fun a b => last b < a.lineIndex) :
    ∃ final, (left.foldl Pass.step p).lines = Text.lines final ∧
      ∀ t ∈ left ++ done, t.StandsIn final (last t) (Carries t.agentId) := by
  induction left generalizing done current p with
  | nil => exact ⟨current, hlines, hdone⟩
  | cons t rest ih =>
    obtain ⟨⟨name, before, tag, after, rfl, hleads, hlast, htidy⟩, hid⟩ := hleft t List.mem_cons_self
    obtain ⟨tag', hstep, hwhole, hfeeds, hcarries, hopens⟩ := hleads.exists_stamped hid htidy hlines
    rw [List.pairwise_cons] at horder
    have hlast' : (Text.position (before ++ tag')).1 = last t := by
      rw [← hlast]
      simp only [Text.position_append, Text.advance_fst, hfeeds]
    obtain ⟨final, hfinal, hstands⟩ := @ih (t :: done) (before ++ tag' ++ after) (p.step t) hstep
      (by
        intro d hd
        rw [List.mem_cons] at hd
        obtain rfl | hd := hd
        · exact ⟨name, before, tag', after, rfl, hleads.exchange hwhole (hopens after), hlast', hcarries⟩
        · apply (hdone d hd).exchange hfeeds
          right
          rw [hlast]
          exact hbelow d hd t List.mem_cons_self)
      (by
        intro u hu
        obtain ⟨hstands, hquotable⟩ := hleft u (List.mem_cons_of_mem t hu)
        refine ⟨hstands.exchange hfeeds (.inl ?_), hquotable⟩
        rw [← hleads.lineIndex]
        exact horder.1 u hu)
      (by
        intro d hd u hu
        rw [List.mem_cons] at hd
        obtain rfl | hd := hd
        · exact horder.1 u hu
        · exact hbelow d hd u (List.mem_cons_of_mem t hu))
      horder.2
    refine ⟨final, hfinal, fun u hu => hstands u ?_⟩
    simp only [List.cons_append, List.mem_cons, List.mem_append] at hu ⊢
    tauto

private theorem pairwise_lastLine_lt_inOrder {source : Text} {targets : List Target}
    (hsteady : ∀ t ∈ targets, t.Steady source)
    (hapart : targets.Pairwise (Target.LinesApart (Text.lines source))) :
    (Target.inOrder targets).Pairwise fun a b => b.lastLine (Text.lines source) < a.lineIndex := by
  have hperm := inOrder_perm targets
  have hapart' : (Target.inOrder targets).Pairwise (Target.LinesApart (Text.lines source)) :=
    hperm.symm.pairwise hapart fun h => h.symm
  apply ((pairwise_inOrder targets).and hapart').imp_of_mem
  rintro a b ha hb ⟨hprecedes, hbefore | hbehind⟩
  · have ha' := (hsteady a (hperm.mem_iff.1 ha)).standsIn.2
    rw [Target.precedes_iff] at hprecedes
    simp only [Target.lineIndex] at ha' hbefore
    omega
  · exact hbehind

/-- Every target finds its identifier again where no two tags share a line. -/
theorem place_run_of_linesApart {source : Text} {targets : List Target}
    (hsteady : ∀ t ∈ targets, t.Steady source)
    (hapart : targets.Pairwise (Target.LinesApart (Text.lines source))) {t : Target} (ht : t ∈ targets) :
    place (Text.lines (run source targets).text) t = .kept := by
  have hperm := inOrder_perm targets
  have hwaiting : ∀ t ∈ Target.inOrder targets,
      t.StandsIn source (t.lastLine (Text.lines source)) Tidy ∧ Quotable t.agentId := by
    intro t ht
    have hsteady := hsteady t (hperm.mem_iff.1 ht)
    exact ⟨hsteady.standsIn.1, hsteady.quotable⟩
  obtain ⟨final, hfinal, hstands⟩ := @standsIn_foldl (Target.inOrder targets) [] source
    { lines := Text.lines source } (Target.lastLine (Text.lines source)) rfl (by simp) hwaiting (by simp)
    (pairwise_lastLine_lt_inOrder hsteady hapart)
  obtain ⟨name, before, tag, after, rfl, hleads, -, hcarries⟩ := hstands t (by simpa using hperm.mem_iff.2 ht)
  rw [text_run, hfinal, Text.unlines_lines]
  exact hleads.place_of_carries hcarries

/-- A second run with the same targets changes nothing exactly if every target leads to its own identifier
in the text that the first run left. It does if the tags are steady and no two of them share a line. -/
theorem rerun_changes_nothing_iff (source : Text) (targets : List Target) :
    ((run (run source targets).text targets).modified = false ∧
        (run (run source targets).text targets).applied = 0 ∧
        (run (run source targets).text targets).skipped = targets.length ↔
      ∀ t ∈ targets, t.InRange (Text.lines (run source targets).text) ∧
        Carries t.agentId (t.tagText (Text.lines (run source targets).text))) ∧
    ((∀ t ∈ targets, t.Steady source) → targets.Pairwise (Target.LinesApart (Text.lines source)) →
      (run (run source targets).text targets).modified = false ∧
        (run (run source targets).text targets).applied = 0 ∧
        (run (run source targets).text targets).skipped = targets.length) := by
  have hidle : (∀ t ∈ targets, place (Text.lines (run source targets).text) t = .kept) →
      (run (run source targets).text targets).modified = false ∧
        (run (run source targets).text targets).applied = 0 ∧
        (run (run source targets).text targets).skipped = targets.length := by
    intro hkept
    rw [run_of_kept hkept]
    exact ⟨rfl, rfl, rfl⟩
  simp only [← place_eq_kept_iff]
  constructor
  · constructor
    · rintro ⟨-, -, hskipped⟩
      exact skipped_run_eq_iff.1 hskipped
    · exact hidle
  · intro hsteady hapart
    exact hidle fun t ht => place_run_of_linesApart hsteady hapart ht

/-- A tag over two lines with an identifier that is exchanged, and a tag below it without one. -/
def stackedTags : Text :=
  "<form\n  data-agent-id='old'>\n  <input disabled/>".toList

def stackedTargets : List Target :=
  [{ agentId := "login".toList, line := 1, column := 1, type := "form".toList },
    { agentId := "login.name".toList, line := 3, column := 2, type := "input".toList }]

theorem rerun_changes_nothing_in_stackedTags :
    (run (run stackedTags stackedTargets).text stackedTargets).modified = false ∧
      (run (run stackedTags stackedTargets).text stackedTargets).applied = 0 ∧
      (run (run stackedTags stackedTargets).text stackedTargets).skipped = 2 :=
  (rerun_changes_nothing_iff stackedTags stackedTargets).2 (by decide +kernel) (by decide +kernel)

/-- Two tags on one line: the identifier of the first moves the second. -/
def neighbourTags : Text :=
  "<a><b>".toList

def neighbourTargets : List Target :=
  [{ agentId := "y".toList, line := 1, column := 4, type := "b".toList },
    { agentId := "x".toList, line := 1, column := 1, type := "a".toList }]

/-- Found from its old column no longer, the second target writes over the identifier of the first, which
the first then writes anew. -/
theorem rerun_changes_neighbourTags :
    neighbourTargets.Pairwise (fun a b => (a.line, a.column) ≠ (b.line, b.column) ∧ a.agentId ≠ b.agentId) ∧
      (∀ t ∈ neighbourTargets, Manifest.isAgentId t.agentId = true ∧ t.InRange (Text.lines neighbourTags) ∧
        (bracket? (Text.lines neighbourTags) t).isSome) ∧
      (run (run neighbourTags neighbourTargets).text neighbourTargets).modified = true ∧
      (run (run neighbourTags neighbourTargets).text neighbourTargets).applied = 2 ∧
      (run (run neighbourTags neighbourTargets).text neighbourTargets).skipped = 0 := by
  have horder : Target.inOrder neighbourTargets = neighbourTargets := inOrder_of_pairwise (by decide)
  simp only [run, horder]
  decide +kernel

end TagStamp.Stamp
