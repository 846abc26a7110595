import TagStamp.Proofs.Stamp.Run
import TagStamp.Proofs.Stamp.TagEdit
import TagStamp.Proofs.Text.Insertion

namespace TagStamp.Stamp

open Attribute Tag

namespace Target

/-- Column of a target, counted from zero. -/
def columnIndex (t : Target) : Nat :=
  (t.column - 1).toNat

/-- Offset of the place that a target reports. -/
def tagOffset (lines : List Text) (t : Target) : Nat :=
  Text.offset lines t.lineIndex t.columnIndex

/-- Offsets of the brackets that open and close the tag at the reported place. -/
def tagSpan? (lines : List Text) (t : Target) : Option (Nat × Nat) :=
  (close? lines t.lineIndex t.columnIndex).map fun close =>
    (t.tagOffset lines, Text.offset lines close.1 close.2)

/-- The identifier as it is inserted. -/
def written (t : Target) : Text :=
  ' ' :: render idAttribute t.agentId

/-- Where the identifier goes: right after the tag name. -/
def insertion (lines : List Text) (t : Target) : Nat × Text :=
  (t.tagOffset lines + 1 + t.tagName.length, t.written)

/-- The target points at the bracket of a tag that closes and has no identifier in it. -/
@[mk_iff]
structure Fresh (source : Text) (t : Target) : Prop where
  line : 1 ≤ t.line ∧ t.line ≤ (Text.lines source).length
  column : 1 ≤ t.column
  bracket : ((Text.lines source).getD t.lineIndex [])[t.columnIndex]? = some '<'
  located : bracket? (Text.lines source) t = some t.columnIndex
  tame : ∀ name ∈ t.tagName.chars?, isTame name = true
  closes : ∃ s ∈ t.tagSpan? (Text.lines source), ¬ idAttribute <:+: (source.take (s.2 + 1)).drop s.1
  quotable : Quotable t.agentId

/-- The tags of two targets have no character in common. -/
def Apart (lines : List Text) (a b : Target) : Prop :=
  ∀ s ∈ a.tagSpan? lines, ∀ s' ∈ b.tagSpan? lines, s.2 < s'.1 ∨ s'.2 < s.1

instance (source : Text) (t : Target) : Decidable (t.Fresh source) :=
  decidable_of_iff _ (fresh_iff source t).symm

instance (lines : List Text) (a b : Target) : Decidable (a.Apart lines b) :=
  inferInstanceAs (Decidable (∀ s ∈ a.tagSpan? lines, ∀ s' ∈ b.tagSpan? lines, s.2 < s'.1 ∨ s'.2 < s.1))

/-- Total length of what is inserted to the left of a target on its line. -/
def shift (targets : List Target) (t : Target) : Nat :=
  ((targets.filter fun u => u.line = t.line ∧ u.column < t.column).flatMap written).length

/-- The target with its column after the insertions. -/
def moved (targets : List Target) (t : Target) : Target :=
  { t with column := t.column + t.shift targets }

/-- A tag without an identifier, with the text around it. -/
structure FreshAt (source : Text) (t : Target) (name before rest after : Text) : Prop where
  split : source = before ++ '<' :: (name ++ rest) ++ after
  leads : t.LeadsTo name before ('<' :: (name ++ rest)) after
  ends : endsName rest = true
  fresh : ¬ idAttribute <:+: '<' :: (name ++ rest)
  position : Text.position before = (t.lineIndex, t.columnIndex)
  span : t.tagSpan? (Text.lines source) = some (before.length, before.length + name.length + rest.length)

theorem Fresh.exists_freshAt {source : Text} {t : Target} (h : t.Fresh source) :
    ∃ name before rest after, t.FreshAt source name before rest after := by
  obtain ⟨⟨first, last⟩, hspan, hfresh⟩ := h.closes
  rw [Option.mem_def] at hspan
  obtain ⟨close, hclose, hoffsets⟩ := Option.map_eq_some_iff.1 hspan
  obtain ⟨name, before, tag, after, hsource, hleads, hposition, hend, -⟩ :=
    exists_leadsTo h.line.1 h.tame h.located hclose
  obtain ⟨rest, htag, hends, -⟩ := hleads.eq_opening_append
  have hlength : tag.length = name.length + rest.length := by
    have hlengths := congrArg List.length htag
    simp only [List.length_append, List.length_cons, List.length_nil] at hlengths
    omega
  have hfirst : t.tagOffset (Text.lines source) = before.length := by
    have hoffset := Text.offset_position before (tag ++ ['>'] ++ after)
    rw [hposition] at hoffset
    rw [tagOffset, hsource, List.append_assoc, List.append_assoc, ← List.append_assoc tag]
    exact hoffset
  have hlast : Text.offset (Text.lines source) close.1 close.2 = before.length + tag.length := by
    have hoffset := Text.offset_position (before ++ tag) (['>'] ++ after)
    rw [hend, List.length_append] at hoffset
    rw [hsource, List.append_assoc (before ++ tag)]
    exact hoffset
  rw [hfirst, hlast, Prod.mk.injEq] at hoffsets
  obtain ⟨rfl, rfl⟩ := hoffsets
  have hcut : (source.take (before.length + tag.length + 1)).drop before.length = tag ++ ['>'] := by
    rw [hsource, List.append_assoc, List.append_assoc, ← List.append_assoc tag, Nat.add_assoc,
      List.take_length_add_append, List.drop_left]
    exact List.take_left' (by simp)
  simp only [hcut] at hfresh
  rw [htag] at hleads hfresh
  refine ⟨name, before, rest, after, ⟨?_, hleads, hends, hfresh, hposition, ?_⟩⟩
  · rw [hsource, ← htag, ← List.append_assoc before]
  · rw [hspan]
    simp only [Option.some.injEq, Prod.mk.injEq, true_and]
    omega

/-- The tag of the second target ends before the first target's tag begins. -/
def Follows (lines : List Text) (a b : Target) : Prop :=
  ∀ s ∈ b.tagSpan? lines, s.2 < a.tagOffset lines

theorem tagOffset_of_tagSpan? {lines : List Text} {t : Target} {s : Nat × Nat}
    (h : t.tagSpan? lines = some s) : t.tagOffset lines = s.1 := by
  obtain ⟨close, -, rfl⟩ := Option.map_eq_some_iff.1 h
  rfl

theorem FreshAt.tagOffset {source name before rest after : Text} {t : Target}
    (h : t.FreshAt source name before rest after) : t.tagOffset (Text.lines source) = before.length :=
  tagOffset_of_tagSpan? h.span

theorem FreshAt.rest_ne_nil {source name before rest after : Text} {t : Target}
    (h : t.FreshAt source name before rest after) : rest ≠ [] := by
  obtain ⟨rest', htag, -, hne⟩ := h.leads.eq_opening_append
  have hrest : rest = rest' := by simpa using htag
  rwa [hrest]

/-- Of two fresh tags, the one further left in the text is reported further up, or further left on the
same line. -/
theorem FreshAt.reported_lt {source name before rest after name' before' rest' after' : Text} {t u : Target}
    (ht : t.FreshAt source name before rest after) (hu : u.FreshAt source name' before' rest' after')
    (hlt : before.length < before'.length) :
    t.lineIndex < u.lineIndex ∨ t.lineIndex = u.lineIndex ∧ t.columnIndex < u.columnIndex := by
  have hbefore : before <+: source := by
    rw [ht.split, List.append_assoc]
    exact List.prefix_append _ _
  have hbefore' : before' <+: source := by
    rw [hu.split, List.append_assoc]
    exact List.prefix_append _ _
  obtain ⟨gap, hgap⟩ := List.prefix_of_prefix_length_le hbefore hbefore' (Nat.le_of_lt hlt)
  have hne : gap ≠ [] := by
    rintro rfl
    rw [← hgap, List.append_nil] at hlt
    omega
  have hposition := Text.position_lt_of_append before hne
  rw [hgap, ht.position, hu.position] at hposition
  exact hposition

theorem Fresh.reported_lt {source : Text} {t u : Target} (ht : t.Fresh source) (hu : u.Fresh source)
    (hlt : t.tagOffset (Text.lines source) < u.tagOffset (Text.lines source)) :
    t.line < u.line ∨ t.line = u.line ∧ t.column < u.column := by
  obtain ⟨_, _, _, _, hat⟩ := ht.exists_freshAt
  obtain ⟨_, _, _, _, hau⟩ := hu.exists_freshAt
  rw [hat.tagOffset, hau.tagOffset] at hlt
  have hreported := hat.reported_lt hau hlt
  have := ht.line
  have := ht.column
  have := hu.line
  have := hu.column
  simp only [lineIndex, columnIndex] at hreported
  omega

/-- In the order of the edits, every tag is followed only by tags that end before it. -/
theorem Fresh.follows {source : Text} {a b : Target} (ha : a.Fresh source) (hb : b.Fresh source)
    (hprecedes : a.precedes b = true) (hapart : a.Apart (Text.lines source) b) :
    a.Follows (Text.lines source) b := by
  intro s hs
  obtain ⟨name, before, rest, after, hat⟩ := ha.exists_freshAt
  obtain hbefore | hafter := hapart _ hat.span s hs
  · have hlt : a.tagOffset (Text.lines source) < b.tagOffset (Text.lines source) := by
      rw [hat.tagOffset, tagOffset_of_tagSpan? hs]
      simp only at hbefore
      omega
    have hreported := ha.reported_lt hb hlt
    rw [precedes_iff] at hprecedes
    omega
  · rw [hat.tagOffset]
    exact hafter

theorem shift_cons (targets : List Target) (u t : Target) :
    t.shift (u :: targets) =
      (if u.line = t.line ∧ u.column < t.column then u.written.length else 0) + t.shift targets := by
  unfold shift
  by_cases h : u.line = t.line ∧ u.column < t.column
  · simp [h]
  · simp [h]

private theorem shift_perm {targets targets' : List Target} (h : targets.Perm targets') (t : Target) :
    t.shift targets = t.shift targets' :=
  ((h.filter _).flatMap_right written).length_eq

/-- The tag of a target stands in the text with its identifier, at the given column and not before the given
offset. -/
def StampedAt (t : Target) (text : Text) (column least : Nat) : Prop :=
  ∃ name before tag after, text = before ++ tag ++ after ∧ t.tagName.chars? = some name ∧ isTame name = true ∧
    Opens name (tag ++ after) ∧ Whole tag ∧ Carries t.agentId tag ∧
    Text.position before = (t.lineIndex, column) ∧ least ≤ before.length

/-- An insertion further up leaves a stamped tag where it is, and one on its line moves it to the right. -/
theorem StampedAt.insert {t : Target} {a b x : Text} {column least : Nat} (h : t.StampedAt (a ++ b) column least)
    (hleast : a.length ≤ least) (hx : '\n' ∉ x) :
    t.StampedAt (a ++ x ++ b) (column + if (Text.position a).1 = t.lineIndex then x.length else 0) least := by
  obtain ⟨name, before, tag, after, hsplit, hnamed, htame, hopens, hwhole, hcarries, hposition, hoffset⟩ := h
  have hbefore : before <+: a ++ b := by
    rw [hsplit, List.append_assoc]
    exact List.prefix_append _ _
  obtain ⟨gap, rfl⟩ := List.prefix_of_prefix_length_le (List.prefix_append a b) hbefore (by omega)
  have hb : b = gap ++ tag ++ after := by simpa using hsplit
  refine ⟨name, a ++ x ++ gap, tag, after, by simp [hb], hnamed, htame, hopens, hwhole, hcarries, ?_, ?_⟩
  · rw [Text.position_insert a gap hx]
    rw [Text.position_append] at hposition ⊢
    split
    · next hmem =>
      have hdown := Text.advance_fst_of_mem hmem (Text.position a)
      rw [hposition] at hdown ⊢
      rw [if_neg (Nat.ne_of_lt hdown), Nat.add_zero]
    · next hmem =>
      have hline : (Text.position a).1 = t.lineIndex := by
        rw [Text.advance_of_notMem hmem, Prod.mk.injEq] at hposition
        exact hposition.1
      rw [hposition, if_pos hline]
  · simp only [List.length_append] at hoffset ⊢
    omega

end Target

/-- What holds after some of the fresh targets: the text has their insertions, and each of them would be
found in it, with its identifier, at its column as moved by these insertions. -/
structure Inserted (source : Text) (done : List Target) (current : Text) : Prop where
  text : current = Text.insertAll (done.map (Target.insertion (Text.lines source))) source
  stamped : ∀ t ∈ done, t.StampedAt current (t.columnIndex + t.shift done) (t.tagOffset (Text.lines source))

theorem Inserted.nil (source : Text) : Inserted source [] source :=
  ⟨(Text.insertAll_nil source).symm, by simp⟩

/-- The insertion into a tag in front of all earlier insertions. -/
theorem Target.FreshAt.insertAll_cons {source name before rest after tail : Text} {t : Target}
    {insertions : List (Nat × Text)} (h : t.FreshAt source name before rest after)
    (hbehind : ∀ i ∈ insertions, before.length + name.length + rest.length < i.1)
    (htext : before ++ '<' :: (name ++ rest) ++ tail = Text.insertAll insertions source) :
    before ++ ('<' :: name ++ t.written ++ rest) ++ tail =
      Text.insertAll (t.insertion (Text.lines source) :: insertions) source := by
  have hlength : (before ++ '<' :: name).length = before.length + 1 + name.length := by
    simp only [List.length_append, List.length_cons]
    omega
  have hpos := List.length_pos_iff.2 h.rest_ne_nil
  have hsource : source = (before ++ '<' :: name) ++ (rest ++ after) := by
    rw [h.split]
    simp
  have hcurrent : before ++ '<' :: (name ++ rest) ++ tail = (before ++ '<' :: name) ++ (rest ++ tail) := by
    simp
  rw [Target.insertion, h.tagOffset, h.leads.tagName_length, ← hlength, Text.insertAll_cons, ← htext,
    hcurrent, List.drop_left]
  · rw [hsource, List.take_left]
    simp
  · intro i hi
    have := hbehind i hi
    omega
  · rw [hsource, @List.length_append _ (before ++ '<' :: name)]
    omega

/-- The insertions so far are all behind a tag that they follow, so the text up to its end is that of the
source. -/
theorem Inserted.exists_tail {source current name before rest after : Text} {done : List Target} {t : Target}
    (h : Inserted source done current) (hat : t.FreshAt source name before rest after)
    (hbehind : ∀ d ∈ done, before.length + name.length + rest.length < d.tagOffset (Text.lines source)) :
    ∃ tail, current = before ++ '<' :: (name ++ rest) ++ tail := by
  have hlength : (before ++ '<' :: (name ++ rest)).length = before.length + name.length + rest.length + 1 := by
    simp only [List.length_append, List.length_cons]
    omega
  have htake : current.take (before ++ '<' :: (name ++ rest)).length = before ++ '<' :: (name ++ rest) := by
    rw [h.text, Text.take_insertAll]
    · rw [hat.split, List.take_left]
    · intro i hi
      obtain ⟨d, hd, rfl⟩ := List.mem_map.1 hi
      have := hbehind d hd
      simp only [Target.insertion]
      omega
    · rw [hat.split, @List.length_append _ (before ++ _)]
      omega
  obtain ⟨tail, htail⟩ := List.take_prefix (before ++ '<' :: (name ++ rest)).length current
  rw [htake] at htail
  exact ⟨tail, htail.symm⟩

theorem Target.Fresh.feed_notMem_written {source : Text} {t : Target} (h : t.Fresh source) : '\n' ∉ t.written := by
  rw [Target.written, List.mem_cons, not_or]
  exact ⟨by decide, h.quotable.feed_notMem_render⟩

/-- Nothing is inserted to the left of a tag that is reported before all others. -/
theorem Target.shift_cons_self {t : Target} {done : List Target}
    (h : ∀ d ∈ done, t.line < d.line ∨ t.line = d.line ∧ t.column < d.column) : t.shift (t :: done) = 0 := by
  have hleft : done.filter (fun u => u.line = t.line ∧ u.column < t.column) = [] := by
    rw [List.filter_eq_nil_iff]
    intro u hu
    have hlater := h u hu
    simp only [decide_eq_true_eq]
    omega
  rw [Target.shift_cons, if_neg (by omega), Target.shift, hleft]
  rfl

/-- A fresh tag with its identifier inserted is found again where it was. -/
theorem Target.FreshAt.stampedAt {source name before rest after : Text} {t : Target}
    (h : t.FreshAt source name before rest after) (hid : Quotable t.agentId) (tail : Text) :
    t.StampedAt (before ++ ('<' :: name ++ t.written ++ rest) ++ tail) t.columnIndex
      (t.tagOffset (Text.lines source)) := by
  obtain ⟨hne, hfree, -⟩ := h.leads.opens
  have hends : endsName (t.written ++ rest) = true := by simp [Target.written, endsName, isBlank_space]
  have hopens := opens_append hne hfree hends (by simp [Target.written]) tail
  exact ⟨name, before, '<' :: name ++ t.written ++ rest, tail, rfl, h.leads.named, h.leads.tame,
    by simpa using hopens, whole_insertion h.leads.tame hid h.leads.whole, carries_insertion h.leads.tame hid,
    h.position, h.tagOffset.le⟩

/-- The insertion into a fresh tag moves the stamped tags behind it that are on its line. -/
theorem Target.FreshAt.stampedAt_insert {source name before rest after tail : Text} {t d : Target} {done : List Target}
    (h : t.FreshAt source name before rest after) (ht : t.Fresh source) (hd : d.Fresh source)
    (hbehind : before.length + name.length + rest.length < d.tagOffset (Text.lines source))
    (hstamped : d.StampedAt (before ++ '<' :: (name ++ rest) ++ tail) (d.columnIndex + d.shift done)
      (d.tagOffset (Text.lines source))) :
    d.StampedAt (before ++ ('<' :: name ++ t.written ++ rest) ++ tail) (d.columnIndex + d.shift (t :: done))
      (d.tagOffset (Text.lines source)) := by
  obtain ⟨-, hfree, -⟩ := h.leads.opens
  have hcut : before ++ '<' :: (name ++ rest) ++ tail = (before ++ '<' :: name) ++ (rest ++ tail) := by simp
  rw [hcut] at hstamped
  have hmoved := hstamped.insert (by simp; omega) ht.feed_notMem_written
  have hline : (Text.position (before ++ '<' :: name)).1 = t.lineIndex := by
    rw [Text.position_append, h.position, Text.advance_of_notMem (by simp [hfree])]
  have hsame : t.lineIndex = d.lineIndex ↔ t.line = d.line ∧ t.column < d.column := by
    have hreported := ht.reported_lt hd (by rw [h.tagOffset]; omega)
    have := ht.line
    have := hd.line
    simp only [Target.lineIndex]
    omega
  have hshift : d.columnIndex + d.shift done +
      (if (Text.position (before ++ '<' :: name)).1 = d.lineIndex then t.written.length else 0) =
      d.columnIndex + d.shift (t :: done) := by
    rw [hline, Target.shift_cons]
    simp only [hsame]
    omega
  rw [hshift] at hmoved
  simpa using hmoved

/-- A fresh target is applied, which adds its insertion to those so far. -/
theorem Inserted.step {source current : Text} {done : List Target} {t : Target}
    (h : Inserted source done current) (ht : t.Fresh source)
    (hdone : ∀ d ∈ done, d.Fresh source ∧ d.Follows (Text.lines source) t) :
    ∃ current' edit, place (Text.lines current) t = .placed (Text.lines current') edit ∧
      Inserted source (t :: done) current' := by
  obtain ⟨name, before, rest, after, hat⟩ := ht.exists_freshAt
  have hbehind : ∀ d ∈ done, before.length + name.length + rest.length < d.tagOffset (Text.lines source) :=
    fun d hd => (hdone d hd).2 _ hat.span
  obtain ⟨tail, rfl⟩ := h.exists_tail hat hbehind
  have hleads := hat.leads.exchange hat.leads.whole (hat.leads.opens_before tail)
  obtain ⟨edit, hplace⟩ := hleads.place_of_fresh rfl (find?_eq_none_of_absent hat.fresh)
  refine ⟨before ++ ('<' :: name ++ t.written ++ rest) ++ tail, edit, hplace, ?_, ?_⟩
  · rw [List.map_cons]
    refine hat.insertAll_cons ?_ h.text
    intro i hi
    obtain ⟨d, hd, rfl⟩ := List.mem_map.1 hi
    have := hbehind d hd
    simp only [Target.insertion]
    omega
  · rw [List.forall_mem_cons]
    constructor
    · have hunmoved : t.shift (t :: done) = 0 := by
        apply Target.shift_cons_self
        intro d hd
        have := hbehind d hd
        exact ht.reported_lt (hdone d hd).1 (by rw [hat.tagOffset]; omega)
      rw [hunmoved]
      exact hat.stampedAt ht.quotable tail
    · intro d hd
      exact hat.stampedAt_insert ht (hdone d hd).1 (hbehind d hd) (h.stamped d hd)

/-- Going on with the targets that are left, every one of them is applied. -/
theorem Inserted.foldl {source : Text} {left : List Target} {done : List Target} {current : Text} {p : Pass}
    (h : Inserted source done current) (hlines : p.lines = Text.lines current)
    (hfresh : ∀ t ∈ done ++ left, t.Fresh source)
    (hdone : ∀ d ∈ done, ∀ t ∈ left, d.Follows (Text.lines source) t)
    (hleft : left.Pairwise (Target.Follows (Text.lines source))) :
    ∃ final, (left.foldl Pass.step p).lines = Text.lines final ∧
      (left.foldl Pass.step p).applied = p.applied + left.length ∧
      (left.foldl Pass.step p).skipped = p.skipped ∧ Inserted source (left.reverse ++ done) final := by
  induction left generalizing done current p with
  | nil => exact ⟨current, hlines, rfl, rfl, h⟩
  | cons t rest ih =>
    rw [List.pairwise_cons] at hleft
    obtain ⟨current', edit, hplace, hstep⟩ := h.step (hfresh t (by simp)) fun d hd =>
      ⟨hfresh d (by simp [hd]), hdone d hd t (by simp)⟩
    rw [← hlines] at hplace
    obtain ⟨hlines', happlied, hskipped⟩ := Pass.step_of_placed hplace
    obtain ⟨final, hfinal, happlied', hskipped', hinserted⟩ := ih hstep hlines'
      (by
        intro u hu
        apply hfresh u
        simp only [List.cons_append, List.mem_cons, List.mem_append] at hu ⊢
        tauto)
      (by
        intro d hd u hu
        rw [List.mem_cons] at hd
        obtain rfl | hd := hd
        · exact hleft.1 u hu
        · exact hdone d hd u (List.mem_cons_of_mem t hu))
      hleft.2
    refine ⟨final, hfinal, ?_, ?_, by simpa using hinserted⟩
    · rw [List.foldl_cons, happlied', happlied, List.length_cons]
      omega
    · rw [List.foldl_cons, hskipped', hskipped]

/-- An inserted identifier is found again at the moved column. -/
theorem Inserted.place_moved {source current : Text} {done : List Target} {t : Target}
    (h : Inserted source done current) (ht : t ∈ done) (hfresh : t.Fresh source) :
    place (Text.lines current) (t.moved done) = .kept := by
  obtain ⟨name, before, tag, after, rfl, hnamed, htame, hopens, hwhole, hcarries, hposition, -⟩ := h.stamped t ht
  have hline := hfresh.line
  have hcolumn := hfresh.column
  have hleads : (t.moved done).LeadsTo name before tag after := by
    refine ⟨hnamed, htame, ?_, ?_, hwhole⟩
    · simp only [Target.moved, hposition, Target.lineIndex]
      omega
    · have hlength : (Text.lastLine before).length = t.columnIndex + t.shift done := by
        rw [Text.position_eq, Prod.mk.injEq] at hposition
        exact hposition.2
      have hfound := hopens.start? (Text.lastLine before)
      have hmoved : (t.moved done).column = (Text.lastLine before).length + 1 := by
        simp only [Target.moved, hlength, Target.columnIndex]
        omega
      rw [hmoved]
      exact hfound
  exact hleads.place_of_carries hcarries

theorem Target.Apart.symm {lines : List Text} {a b : Target} (h : a.Apart lines b) : b.Apart lines a :=
  fun s hs s' hs' => (h s' hs' s hs).symm

private theorem pairwise_follows_inOrder {source : Text} {targets : List Target}
    (hfresh : ∀ t ∈ targets, t.Fresh source)
    (hapart : targets.Pairwise (Target.Apart (Text.lines source))) :
    (Target.inOrder targets).Pairwise (Target.Follows (Text.lines source)) := by
  have hperm := inOrder_perm targets
  have hapart' : (Target.inOrder targets).Pairwise (Target.Apart (Text.lines source)) :=
    hperm.symm.pairwise hapart fun h => h.symm
  apply ((pairwise_inOrder targets).and hapart').imp_of_mem
  rintro a b ha hb ⟨hprecedes, hab⟩
  exact (hfresh a (hperm.mem_iff.1 ha)).follows (hfresh b (hperm.mem_iff.1 hb)) hprecedes hab

/-- Two tags of which one ends before the other begins have their identifiers inserted at different
offsets. -/
theorem Target.Follows.insertion_lt {source : Text} {a b : Target} (h : a.Follows (Text.lines source) b)
    (hb : b.Fresh source) : (b.insertion (Text.lines source)).1 < (a.insertion (Text.lines source)).1 := by
  obtain ⟨name, before, rest, after, hat⟩ := hb.exists_freshAt
  have hlt := h _ hat.span
  have hpos := List.length_pos_iff.2 hat.rest_ne_nil
  simp only [Target.insertion, hat.tagOffset, hat.leads.tagName_length] at hlt ⊢
  omega

/-- Fresh targets with separate tags are all applied, which comes to inserting every identifier right
after its tag name at once; and a second run at the columns as moved by the insertions skips them all. -/
theorem run_inserts_and_rerun_skips (source : Text) (targets : List Target)
    (hfresh : ∀ t ∈ targets, t.Fresh source)
    (hapart : targets.Pairwise (Target.Apart (Text.lines source))) :
    (run source targets).applied = targets.length ∧ (run source targets).skipped = 0 ∧
      (run source targets).text =
        Text.insertAll (targets.map (Target.insertion (Text.lines source))) source ∧
      (run (run source targets).text (targets.map (Target.moved targets))).modified = false ∧
      (run (run source targets).text (targets.map (Target.moved targets))).applied = 0 ∧
      (run (run source targets).text (targets.map (Target.moved targets))).skipped = targets.length := by
  have hperm := inOrder_perm targets
  have hfollows := pairwise_follows_inOrder hfresh hapart
  have hfresh' : ∀ t ∈ Target.inOrder targets, t.Fresh source := fun t ht => hfresh t (hperm.mem_iff.1 ht)
  obtain ⟨final, hlines, happlied, hskipped, hinserted⟩ := (Inserted.nil source).foldl
    (p := { lines := Text.lines source }) rfl (by simpa using hfresh') (by simp) hfollows
  rw [List.append_nil] at hinserted
  simp only [Nat.zero_add, hperm.length_eq] at happlied
  have hall : (Target.inOrder targets).reverse.Perm targets := (List.reverse_perm _).trans hperm
  have hdistinct : ((Target.inOrder targets).reverse.map (Target.insertion (Text.lines source))).Pairwise
      fun i j => i.1 ≠ j.1 := by
    rw [List.pairwise_map, List.pairwise_reverse]
    apply hfollows.imp_of_mem
    intro a b ha hb hab
    exact Nat.ne_of_lt (hab.insertion_lt (hfresh' b hb))
  have hfinal : final = Text.insertAll (targets.map (Target.insertion (Text.lines source))) source := by
    rw [hinserted.text]
    exact Text.insertAll_perm (hall.map _) hdistinct source
  have htext : (run source targets).text = final := by rw [text_run, hlines, Text.unlines_lines]
  have hagain : run final (targets.map (Target.moved targets)) =
      { text := final, applied := 0, skipped := (targets.map (Target.moved targets)).length, log := [] } := by
    apply run_of_kept
    intro u hu
    obtain ⟨t, ht, rfl⟩ := List.mem_map.1 hu
    have hmoved : t.moved targets = t.moved (Target.inOrder targets).reverse := by
      rw [Target.moved, Target.moved, Target.shift_perm hall]
    rw [hmoved]
    exact hinserted.place_moved (hall.mem_iff.2 ht) (hfresh t ht)
  refine ⟨happlied, hskipped, htext.trans hfinal, ?_, ?_, ?_⟩
  · rw [htext, hagain]
    rfl
  · rw [htext, hagain]
  · rw [htext, hagain, List.length_map]

/-- Three tags, two of them on one line and one over two lines, with an element inside a value. -/
def threeTags : Text :=
  "<a><Menu icon=\x7b<i/>\x7d\n/> <p>".toList

def threeTargets : List Target :=
  [{ agentId := "menu".toList, line := 1, column := 4, type := "menu".toList, sourceTag := some "Menu" },
    { agentId := "p".toList, line := 2, column := 4, type := "p".toList },
    { agentId := "a".toList, line := 1, column := 1, type := "a".toList }]

theorem run_inserts_three_tags :
    (run threeTags threeTargets).applied = 3 ∧ (run threeTags threeTargets).skipped = 0 ∧
      (run threeTags threeTargets).text =
        ("<a data-agent-id=\"a\"><Menu data-agent-id=\"menu\" icon=\x7b<i/>\x7d\n" ++
          "/> <p data-agent-id=\"p\">").toList ∧
      (run (run threeTags threeTargets).text (threeTargets.map (Target.moved threeTargets))).modified = false ∧
      (run (run threeTags threeTargets).text (threeTargets.map (Target.moved threeTargets))).applied = 0 ∧
      (run (run threeTags threeTargets).text (threeTargets.map (Target.moved threeTargets))).skipped = 3 := by
  obtain ⟨happlied, hskipped, htext, hagain⟩ :=
    run_inserts_and_rerun_skips threeTags threeTargets (by decide +kernel) (by decide +kernel)
  exact ⟨happlied, hskipped, htext.trans (by decide +kernel), hagain⟩

end TagStamp.Stamp
