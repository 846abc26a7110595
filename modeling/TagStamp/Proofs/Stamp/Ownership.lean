import TagStamp.Proofs.Stamp.Run
import TagStamp.Proofs.Stamp.TagEdit

namespace TagStamp.Stamp

open Attribute Tag

/-- The scan comes to the offset outside strings and outside braces. -/
def OutsideAt (tag : Text) (n : Nat) : Prop :=
  ∃ s ∈ ({} : Scan).read (tag.take n), s.quote = none ∧ s.braces = 0

/-- The scan comes to the offset inside a string or inside braces. -/
def InsideAt (tag : Text) (n : Nat) : Prop :=
  ∃ s ∈ ({} : Scan).read (tag.take n), s.quote ≠ none ∨ 0 < s.braces

instance (tag : Text) (n : Nat) : Decidable (OutsideAt tag n) :=
  inferInstanceAs (Decidable (∃ s ∈ ({} : Scan).read (tag.take n), _))

instance (tag : Text) (n : Nat) : Decidable (InsideAt tag n) :=
  inferInstanceAs (Decidable (∃ s ∈ ({} : Scan).read (tag.take n), _))

/-- Offset of the identifier that the edit of a target matches in the text it selects. -/
def Target.matched? (lines : List Text) (t : Target) : Option Nat :=
  (find? idAttribute (t.tagText lines)).map fun found => found.before.length

theorem OutsideAt.not_insideAt {tag : Text} {n : Nat} (h : OutsideAt tag n) : ¬ InsideAt tag n := by
  obtain ⟨s, hread, hquote, hbraces⟩ := h
  rintro ⟨s', hread', hinside⟩
  rw [Option.mem_def] at hread hread'
  rw [hread, Option.some.injEq] at hread'
  subst hread'
  obtain hstring | hbrace := hinside
  · exact hstring hquote
  · omega

/-- The scan for the close comes to every offset of the tag. -/
theorem exists_read_take {q : Text} {m : Nat} (hm : m < Tag.extent q) :
    ∃ s, ({} : Scan).read ((q.take (Tag.extent q)).take m) = some s := by
  have hshort : ∀ {u v : Text} {s : Scan}, ({} : Scan).read (u ++ v) = some s →
      ∃ s', ({} : Scan).read u = some s' := by
    intro u v s hread
    rw [Scan.read_append] at hread
    obtain ⟨s', hs', -⟩ := Option.bind_eq_some_iff.1 hread
    exact ⟨s', hs'⟩
  rw [List.take_take, Nat.min_eq_left (Nat.le_of_lt hm)]
  unfold Tag.extent at hm
  cases hline : ({} : Scan).line 0 q with
  | inl n =>
    obtain ⟨u, v, s, rfl, hn, hread, -⟩ := Scan.exists_of_line_inl hline
    simp only [hline] at hm
    rw [List.take_append_of_le_length (by omega)]
    rw [← List.take_append_drop m u] at hread
    exact hshort hread
  | inr s =>
    have hread := Scan.read_of_line_inr hline
    rw [← List.take_append_drop m q] at hread
    exact hshort hread

private theorem outsideAt_or_insideAt {q : Text} {m : Nat} (hm : m < Tag.extent q) :
    OutsideAt (q.take (Tag.extent q)) m ∨ InsideAt (q.take (Tag.extent q)) m := by
  obtain ⟨s, hread⟩ := exists_read_take hm
  by_cases hs : s.quote = none ∧ s.braces = 0
  · exact .inl ⟨s, hread, hs⟩
  · refine .inr ⟨s, hread, ?_⟩
    by_cases hquote : s.quote = none
    · exact .inr (Nat.pos_of_ne_zero fun hzero => hs ⟨hquote, hzero⟩)
    · exact .inl hquote

/-- An edit is an update or a skip exactly if an identifier is matched. -/
theorem matched?_isSome_iff {lines : List Text} {t : Target} (hrange : t.InRange lines) :
    (place lines t = .kept ∨ ∃ lines' x, place lines t = .placed lines' (.updated x)) ↔
      (t.matched? lines).isSome = true := by
  rw [place_eq hrange, Target.matched?, Option.isSome_map]
  unfold assign
  cases hfind : find? idAttribute (t.tagText lines) with
  | none => cases bracket? lines t <;> simp
  | some found =>
    by_cases hvalue : found.value = t.agentId
    · simp [hvalue]
    · simp [hvalue]

theorem lt_length_of_at?_isSome {name text : Text} {n : Nat} (h : (at? name text n).isSome = true) :
    n < text.length := by
  by_contra hlong
  rw [at?, List.drop_of_length_le (by omega), here?_nil] at h
  cases h

/-- The match is the leftmost place where an identifier starts. -/
theorem mem_matched?_iff {lines : List Text} {t : Target} {n : Nat} :
    n ∈ t.matched? lines ↔ (at? idAttribute (t.tagText lines) n).isSome = true ∧
      ∀ m < n, at? idAttribute (t.tagText lines) m = none := by
  rw [Target.matched?, Option.mem_def, Option.map_eq_some_iff]
  constructor
  · rintro ⟨found, hfind, rfl⟩
    obtain ⟨n, hn, hbefore, hlength, hfirst⟩ := find?_eq_some_iff.1 hfind
    rw [hbefore, List.length_take_of_le hlength]
    exact ⟨by rw [hn]; rfl, hfirst⟩
  · rintro ⟨hsome, hfirst⟩
    obtain ⟨found, hn⟩ := Option.isSome_iff_exists.1 hsome
    have hlength := Nat.le_of_lt (lt_length_of_at?_isSome hsome)
    refine ⟨{ found with before := (t.tagText lines).take n }, ?_, List.length_take_of_le hlength⟩
    rw [find?_eq_some_iff]
    refine ⟨n, ?_, rfl, hlength, hfirst⟩
    have hempty := (here?_eq_some_iff.1 hn).1
    rw [hn, ← hempty]

private theorem exists_mem_matched? {lines : List Text} {t : Target} {m : Nat}
    (h : (at? idAttribute (t.tagText lines) m).isSome = true) : ∃ n, n ∈ t.matched? lines := by
  cases hfind : find? idAttribute (t.tagText lines) with
  | none =>
    rw [find?_eq_none_iff.1 hfind m] at h
    cases h
  | some found => exact ⟨found.before.length, by rw [Target.matched?, hfind]; rfl⟩

/-- After any targets, the next one leads from its bracket to the tag that the scan delimits there. Its edit
is an update or a skip exactly if an identifier is matched in this tag, and the match is the tag's own
attribute exactly if one outside strings and braces stands before every one inside of them. -/
theorem matched_outside_iff (source : Text) (done : List Target) {p : Pass} {t : Target} {k : Nat}
    (hp : p = done.foldl Pass.step { lines := Text.lines source }) (hline : 1 ≤ t.line)
    (hlocated : bracket? p.lines t = some k) :
    (∃ before after, p.lines = Text.lines (before ++ t.tagText p.lines ++ after) ∧
        Text.position before = (t.lineIndex, k) ∧
        Tag.extent (t.tagText p.lines ++ after) = (t.tagText p.lines).length) ∧
      ((place p.lines t = .kept ∨ ∃ lines x, place p.lines t = .placed lines (.updated x)) ↔
        (t.matched? p.lines).isSome = true) ∧
      ((∀ n ∈ t.matched? p.lines, OutsideAt (t.tagText p.lines) n) ↔
        ∀ m, (at? idAttribute (t.tagText p.lines) m).isSome = true → InsideAt (t.tagText p.lines) m →
          ∃ n < m, (at? idAttribute (t.tagText p.lines) n).isSome = true ∧ OutsideAt (t.tagText p.lines) n) := by
  obtain ⟨text, htext⟩ := Pass.exists_text_foldl (p := { lines := Text.lines source }) rfl done
  rw [← hp] at htext
  have hrange := Target.inRange_of_bracket? hline hlocated
  have hsplit := hrange
  rw [htext] at hsplit
  obtain ⟨before, q, rfl, hposition⟩ := hsplit.exists_split
  have htag := Target.tagText_of_position hposition
  rw [← htext] at hposition htag
  rw [hlocated, Option.getD_some] at hposition
  have hwhole : t.tagText p.lines ++ q.drop (Tag.extent q) = q := by rw [htag, List.take_append_drop]
  have hlength : (t.tagText p.lines).length = Tag.extent q := by
    rw [htag, List.length_take_of_le (extent_le_length q)]
  refine ⟨⟨before, q.drop (Tag.extent q), ?_, hposition, ?_⟩, matched?_isSome_iff hrange, ?_⟩
  · rw [List.append_assoc, hwhole, htext]
  · rw [hwhole, hlength]
  · constructor
    · -- The match is the leftmost one, so it stands before whatever starts inside, and outside by assumption.
      intro hown m hm hinside
      obtain ⟨n, hn⟩ := exists_mem_matched? hm
      have houtside := hown n hn
      rw [mem_matched?_iff] at hn
      refine ⟨n, ?_, hn.1, houtside⟩
      by_contra hle
      obtain heq | hlt := Nat.eq_or_lt_of_le (Nat.le_of_not_lt hle)
      · rw [← heq] at houtside
        exact houtside.not_insideAt hinside
      · rw [hn.2 m hlt] at hm
        cases hm
    · intro hbefore n hn
      rw [mem_matched?_iff] at hn
      have hlt : n < Tag.extent q := by
        rw [← hlength]
        exact lt_length_of_at?_isSome hn.1
      have hstate := outsideAt_or_insideAt hlt
      rw [← htag] at hstate
      obtain houtside | hinside := hstate
      · exact houtside
      · obtain ⟨m, hm, hsome, -⟩ := hbefore n hn.1 hinside
        rw [hn.2 m hm] at hsome
        cases hsome

/-- A tag with an identifier of its own, and in an expression after it an element that gets another one. -/
def ownTag : Text :=
  "<a data-agent-id='x' b=\x7b<i/>\x7d>".toList

def innerTarget : Target :=
  { agentId := "y".toList, line := 1, column := 25, type := "i".toList }

def outerTarget : Target :=
  { agentId := "z".toList, line := 1, column := 1, type := "a".toList }

theorem matched_outside_in_ownTag :
    let lines := ([innerTarget].foldl Pass.step { lines := Text.lines ownTag }).lines
    lines = Text.lines "<a data-agent-id='x' b=\x7b<i data-agent-id=\"y\"/>\x7d>".toList ∧
      InsideAt (outerTarget.tagText lines) 26 ∧
      ∀ m, (at? idAttribute (outerTarget.tagText lines) m).isSome = true →
        InsideAt (outerTarget.tagText lines) m →
        ∃ n < m, (at? idAttribute (outerTarget.tagText lines) n).isSome = true ∧
          OutsideAt (outerTarget.tagText lines) n := by
  intro lines
  have hlocated : bracket? lines outerTarget = some 0 := by decide +kernel
  refine ⟨by decide +kernel, by decide +kernel, ?_⟩
  exact (matched_outside_iff ownTag [innerTarget] rfl (by decide) hlocated).2.2.1 (by decide +kernel)

/-- An element with an identifier inside an expression of a tag that has none itself. -/
def nestedTag : Text :=
  "<a b=\x7b<i data-agent-id=\"y\"/>\x7d>".toList

/-- The identifier of the inner element is taken for the outer one's and written over. -/
theorem matched_inside_in_nestedTag :
    bracket? (Text.lines nestedTag) outerTarget = some 0 ∧
      outerTarget.matched? (Text.lines nestedTag) = some 9 ∧
      InsideAt (outerTarget.tagText (Text.lines nestedTag)) 9 ∧
      ¬ OutsideAt (outerTarget.tagText (Text.lines nestedTag)) 9 ∧
      (run nestedTag [outerTarget]).text = "<a b=\x7b<i data-agent-id=\"z\"/>\x7d>".toList := by
  have horder : Target.inOrder [outerTarget] = [outerTarget] := inOrder_of_pairwise (by decide)
  simp only [run, horder]
  decide +kernel

end TagStamp.Stamp
