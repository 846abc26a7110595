import Mathlib.Data.List.Perm.Subperm
import TagStamp.Proofs.Stamp.Insertion

namespace TagStamp.Text

theorem length_lines (text : Text) : (lines text).length = text.count '\n' + 1 := by
  have hcount : (position text).1 = 0 + text.count '\n' := advance_fst text (0, 0)
  have hpos := List.length_pos_iff.2 (lines_ne_nil text)
  rw [position_eq, List.length_dropLast] at hcount
  omega

end TagStamp.Text

namespace TagStamp.Tag

/-- Characters of the tag at the beginning of a text, not counting the bracket that closes it. -/
def inner (text : Text) : Nat :=
  match ({} : Scan).line 0 text with
  | .inl n => n
  | .inr _ => (Text.firstLine text).length

theorem inner_le_extent (text : Text) : inner text ≤ extent text := by
  unfold inner extent
  cases ({} : Scan).line 0 text with
  | inl n => exact Nat.le_succ n
  | inr s => exact Nat.le_refl _

theorem inner_le_length (text : Text) : inner text ≤ text.length :=
  (inner_le_extent text).trans (extent_le_length text)

/-- A tag ends with the bracket that closes it, if any. -/
theorem take_extent (text : Text) :
    text.take (extent text) = text.take (inner text) ∨
      text.take (extent text) = text.take (inner text) ++ ['>'] := by
  unfold extent inner
  cases hline : ({} : Scan).line 0 text with
  | inl n =>
    obtain ⟨u, v, s, rfl, hn, -⟩ := Scan.exists_of_line_inl hline
    rw [Nat.zero_add] at hn
    right
    simp [hn, List.take_append, List.take_of_length_le]
  | inr s => exact .inl rfl

/-- The bracket that closes a tag stands after its name, unless the name has such a bracket in it. -/
theorem Opens.lt_inner {name q : Text} (h : Opens name q) (hname : '>' ∉ name) : name.length < inner q := by
  obtain ⟨-, hfree, rest, rfl, -⟩ := h
  unfold inner
  cases hline : ({} : Scan).line 0 ('<' :: (name ++ rest)) with
  | inl n =>
    obtain ⟨u, v, s, hsplit, hn, -⟩ := Scan.exists_of_line_inl hline
    rw [Nat.zero_add] at hn
    subst hn
    change name.length < u.length
    by_contra hshort
    have hclose : ('<' :: name ++ rest)[u.length]? = some '>' := by
      rw [List.cons_append, hsplit]
      simp
    rw [List.getElem?_append_left (by simp only [List.length_cons]; omega)] at hclose
    have hmem := List.mem_of_getElem? hclose
    simp [hname] at hmem
  | inr s =>
    have hfirst := Text.firstLine_append_of_notMem (p := '<' :: name) (by simp [hfree]) rest
    rw [List.cons_append] at hfirst
    simp only [hfirst, List.length_append, List.length_cons]
    omega

end TagStamp.Tag

namespace TagStamp.Stamp

open Attribute Tag

/-- What the edit of a target takes out of the text, and what it puts there. -/
inductive Exchange (t : Target) : Text → Text → Prop
  | insertion : Exchange t [] t.written
  | update {quote : Char} {value : Text} (hquote : isValueQuote quote = true) (hfree : '\n' ∉ value)
      (hother : value ≠ t.agentId) :
      Exchange t (idAttribute ++ '=' :: quote :: value ++ [quote]) (render idAttribute t.agentId)

/-- What is taken out and what is put there stay on one line. -/
theorem Exchange.feed_notMem {t : Target} {old new : Text} (h : Exchange t old new) (hid : '\n' ∉ t.agentId) :
    '\n' ∉ old ∧ '\n' ∉ new := by
  have hname := feed_notMem_idAttribute
  cases h with
  | insertion => simp [Target.written, render, hname, hid]
  | update hquote hfree hother =>
    have hfeed := (isValueQuote_ne hquote).2
    simp [render, hname, hid, hfree, hfeed.symm]

/-- Offset at which the tag that opens at a column of the target's line ends: that of the bracket that
closes it, or of the end of the line if it does not close. -/
def Target.tagEnd (lines : List Text) (t : Target) (k : Nat) : Nat :=
  match close? lines t.lineIndex k with
  | some close => Text.offset lines close.1 close.2
  | none => Text.offset lines t.lineIndex (lines.getD t.lineIndex []).length

/-- Line that the edit of a target is placed on: that of the identifier to exchange, or that of the bracket
if there is none in the tag. -/
def Target.editLine (lines : List Text) (t : Target) : Nat :=
  match find? idAttribute (t.tagText lines) with
  | some found => t.lineIndex + found.before.count '\n'
  | none => t.lineIndex

/-- One text becomes another by the edit of a target between two parts that stay. Only a tag that was found
gets an identifier inserted. Without a closing bracket in the name of the tag, that is right after the
name, and no edit goes beyond the brackets of a tag that was found. -/
structure EditsBetween (t : Target) (x y before old new after : Text) : Prop where
  inRange : t.InRange (Text.lines x)
  was : x = before ++ old ++ after
  becomes : y = before ++ new ++ after
  exchange : Exchange t old new
  located : old = [] → (bracket? (Text.lines x) t).isSome = true
  named : old = [] → ∀ name ∈ t.tagName.chars?, '>' ∉ name → '<' :: name <:+ before
  inside : ∀ name ∈ t.tagName.chars?, '>' ∉ name → ∀ k ∈ bracket? (Text.lines x) t,
    Text.offset (Text.lines x) t.lineIndex k < before.length ∧
      (before ++ old).length ≤ t.tagEnd (Text.lines x) k

/-- One text becomes another by a single edit of a target. -/
def Edits (t : Target) (x y : Text) : Prop :=
  ∃ before old new after, EditsBetween t x y before old new after

/-- One text becomes another by the edits of the given targets, one after the other. -/
inductive Chain : Text → List Target → Text → Prop
  | nil (x : Text) : Chain x [] x
  | cons {x y z : Text} {t : Target} {steps : List Target} (hfirst : Edits t x y)
      (hrest : Chain y steps z) : Chain x (t :: steps) z

namespace Target

private theorem tagEnd_of_position {p : Text} {t : Target} {k : Nat} (hposition : Text.position p = (t.lineIndex, k))
    (q : Text) : t.tagEnd (Text.lines (p ++ q)) k = p.length + inner q := by
  have hclose := close?_lines_append p q
  rw [hposition] at hclose
  unfold tagEnd Tag.inner
  rw [hclose]
  cases hline : ({} : Scan).line 0 q with
  | inl n =>
    obtain ⟨u, v, s, rfl, hn, -⟩ := Scan.exists_of_line_inl hline
    rw [Nat.zero_add] at hn
    have hoffset := Text.offset_position (p ++ u) ('>' :: v)
    rw [List.append_assoc, List.length_append] at hoffset
    simpa [hn] using hoffset
  | inr s =>
    have hoffset := Text.offset_position p q
    have hlineText := Text.getD_lines_append p q
    rw [hposition] at hoffset hlineText
    have hlast : (Text.lastLine p).length = k := by
      rw [Text.position_eq, Prod.mk.injEq] at hposition
      exact hposition.2
    simp only [Text.offset] at hoffset ⊢
    simp only [hlineText, List.length_append, hlast]
    omega

/-- A target that leads to a bracket leads to a tag of its name. -/
theorem opens_of_bracket? {p q : Text} {t : Target} {k : Nat}
    (hbracket : Stamp.bracket? (Text.lines (p ++ q)) t = some k)
    (hposition : Text.position p = (t.lineIndex, k)) :
    ∃ name, t.tagName.chars? = some name ∧ Opens name q := by
  obtain ⟨name, hnamed, hstart⟩ := Option.bind_eq_some_iff.1 hbracket
  have hlineText := Text.getD_lines_append p q
  rw [hposition] at hlineText
  have hcolumn : (Text.lastLine p).length = k := by
    rw [Text.position_eq, Prod.mk.injEq] at hposition
    exact hposition.2
  rw [hlineText, ← hcolumn] at hstart
  exact ⟨name, hnamed, opens_of_start? hstart⟩

end Target

/-- An identifier that is found in a tag stands after the bracket that opens it and before the one that
closes it. -/
theorem found_inside {name q : Text} (h : Opens name q) {found : Occurrence}
    (hfound : find? idAttribute (q.take (extent q)) = some found) :
    0 < found.before.length ∧
      (found.before ++ (idAttribute ++ '=' :: found.quote :: found.value ++ [found.quote])).length ≤ inner q := by
  obtain ⟨hsplit, -⟩ := eq_of_find?_eq_some hfound
  obtain ⟨n, hn, -⟩ := find?_eq_some_iff.1 hfound
  obtain ⟨hquote, -⟩ := prefix_drop_of_at? hn
  have hcut : q.take (extent q) = found.before ++ (idAttribute ++ '=' :: found.quote :: found.value ++
      [found.quote]) ++ found.after := by
    rw [hsplit]
    simp
  constructor
  · -- The text of the tag begins with a bracket, and no identifier does.
    by_contra hzero
    have hempty : found.before = [] := List.eq_nil_of_length_eq_zero (by omega)
    rw [hempty, List.nil_append, List.append_assoc, List.append_assoc] at hcut
    have hname : idAttribute <+: q.take (extent q) := ⟨_, hcut.symm⟩
    have hstart := hname.trans (List.take_prefix _ _)
    obtain ⟨-, -, rest, rfl, -⟩ := h
    have hbegin : idAttribute = 'd' :: idAttribute.tail := rfl
    rw [hbegin, List.cons_prefix_cons] at hstart
    exact absurd hstart.1 (by decide)
  · have hlength := congrArg List.length hcut
    obtain hopen | hclosed := take_extent q
    · rw [hopen, List.length_take_of_le (inner_le_length q), List.length_append] at hlength
      omega
    · -- What is found ends with a quote, so the closing bracket is left over.
      have hafter : found.after ≠ [] := by
        intro hnil
        rw [hclosed, hnil, List.append_nil, ← List.append_assoc] at hcut
        have hlast := (List.append_inj' hcut rfl).2
        rw [List.singleton_inj] at hlast
        rw [← hlast] at hquote
        simp [isValueQuote] at hquote
      have hpos := List.length_pos_iff.2 hafter
      rw [hclosed, List.length_append, List.length_take_of_le (inner_le_length q), List.length_append,
        List.length_singleton] at hlength
      omega

/-- The text of a tag begins with its bracket and its name. -/
theorem take_name {name q : Text} (h : Opens name q) (hname : '>' ∉ name) :
    (q.take (extent q)).take (1 + name.length) = '<' :: name := by
  have hinner := h.lt_inner hname
  have hlong : 1 + name.length ≤ extent q := by
    have hle := inner_le_extent q
    omega
  obtain ⟨-, -, rest, rfl, -⟩ := h
  rw [List.take_take, Nat.min_eq_left hlong, Nat.add_comm, List.take_succ_cons, List.take_left]

/-- The name of a tag ends on the line of its bracket. -/
theorem position_take_name {name p q : Text} (h : Opens name q) :
    (Text.position (p ++ (q.take (extent q)).take (1 + name.length))).1 = (Text.position p).1 := by
  obtain ⟨-, hfree, rest, rfl, -⟩ := h
  have hshort : min (1 + name.length) (extent ('<' :: name ++ rest)) ≤ ('<' :: name).length := by
    rw [List.length_cons]
    omega
  rw [Text.position_append, List.take_take, ← List.cons_append, List.take_append_of_le_length hshort,
    Text.advance_of_notMem]
  exact fun hmem => by simpa [hfree] using List.mem_of_mem_take hmem

section Place

variable {p q : Text} {t : Target}

theorem Target.position_of_bracket? {k : Nat}
    (hposition : Text.position p = (t.lineIndex, (bracket? (Text.lines (p ++ q)) t).getD 0))
    (hk : bracket? (Text.lines (p ++ q)) t = some k) : Text.position p = (t.lineIndex, k) := by
  rwa [hk, Option.getD_some] at hposition

theorem Target.editLine_of_position
    (hposition : Text.position p = (t.lineIndex, (bracket? (Text.lines (p ++ q)) t).getD 0)) :
    t.editLine (Text.lines (p ++ q)) =
      match find? idAttribute (q.take (extent q)) with
      | some found => (Text.position (p ++ found.before)).1
      | none => (Text.position p).1 := by
  rw [Target.editLine, Target.tagText_of_position hposition]
  simp only [Text.position_append, Text.advance_fst, hposition]

/-- A part of the text lies between the brackets of a tag if it lies so seen from the tag's first bracket. -/
theorem Target.inside_of_position {u old : Text} {k : Nat} (hposition : Text.position p = (t.lineIndex, k))
    (hpos : 0 < u.length) (hend : (u ++ old).length ≤ inner q) :
    Text.offset (Text.lines (p ++ q)) t.lineIndex k < (p ++ u).length ∧
      (p ++ u ++ old).length ≤ t.tagEnd (Text.lines (p ++ q)) k := by
  have hoffset := Text.offset_position p q
  rw [hposition] at hoffset
  rw [hoffset, Target.tagEnd_of_position hposition]
  simp only [List.length_append] at hend ⊢
  omega

/-- An identifier with another value, found in the tag at the place of the target, is exchanged. -/
theorem editsBetween_update {found : Occurrence} (hrange : t.InRange (Text.lines (p ++ q)))
    (hposition : Text.position p = (t.lineIndex, (bracket? (Text.lines (p ++ q)) t).getD 0))
    (hfind : find? idAttribute (q.take (extent q)) = some found) (hvalue : found.value ≠ t.agentId) :
    EditsBetween t (p ++ q)
      (p ++ (found.before ++ render idAttribute t.agentId ++ found.after) ++ q.drop (extent q))
      (p ++ found.before) (idAttribute ++ '=' :: found.quote :: found.value ++ [found.quote])
      (render idAttribute t.agentId) (found.after ++ q.drop (extent q)) := by
  obtain ⟨hsplit, hfree⟩ := eq_of_find?_eq_some hfind
  obtain ⟨n, hn, -⟩ := find?_eq_some_iff.1 hfind
  obtain ⟨hquote, -⟩ := prefix_drop_of_at? hn
  refine ⟨hrange, ?_, by simp, .update hquote hfree hvalue, by simp, by simp, ?_⟩
  · calc p ++ q = p ++ (q.take (extent q) ++ q.drop (extent q)) := by rw [List.take_append_drop]
      _ = _ := by rw [hsplit]; simp
  · intro name _ _ k hk
    have hplace := Target.position_of_bracket? hposition hk
    obtain ⟨name, -, hopens⟩ := Target.opens_of_bracket? hk hplace
    obtain ⟨hafter, hbefore⟩ := found_inside hopens hfind
    exact Target.inside_of_position hplace hafter hbefore

/-- In a tag of the target's name, an identifier is inserted right after the name. -/
theorem editsBetween_insertion {name : Text} {k : Nat} (hrange : t.InRange (Text.lines (p ++ q)))
    (hbracket : bracket? (Text.lines (p ++ q)) t = some k) (hposition : Text.position p = (t.lineIndex, k))
    (hnamed : t.tagName.chars? = some name) (hopens : Opens name q) :
    EditsBetween t (p ++ q)
      (p ++ ((q.take (extent q)).take (1 + name.length) ++ t.written ++
        (q.take (extent q)).drop (1 + name.length)) ++ q.drop (extent q))
      (p ++ (q.take (extent q)).take (1 + name.length)) [] t.written
      ((q.take (extent q)).drop (1 + name.length) ++ q.drop (extent q)) := by
  refine ⟨hrange, ?_, by simp, .insertion, by simp [hbracket], ?_, ?_⟩
  · rw [List.append_nil, List.append_assoc, ← List.append_assoc (List.take _ _), List.take_append_drop,
      List.take_append_drop]
  · intro _ name' hname' hclean
    rw [Option.mem_def, hnamed, Option.some.injEq] at hname'
    subst hname'
    rw [take_name hopens hclean]
    exact List.suffix_append _ _
  · intro name' hname' hclean k' hk'
    rw [Option.mem_def, hnamed, Option.some.injEq] at hname'
    rw [Option.mem_def, hbracket, Option.some.injEq] at hk'
    subst hname' hk'
    have hinner := hopens.lt_inner hclean
    rw [take_name hopens hclean]
    exact Target.inside_of_position hposition (by simp) (by simpa using Nat.succ_le_of_lt hinner)

end Place

/-- What a target does to a text that it is applied to is a single edit on one line. -/
theorem exists_edit_of_placed {x : Text} {t : Target} {lines : List Text} {edit : Edit}
    (h : place (Text.lines x) t = .placed lines edit) :
    ∃ y before old new after, lines = Text.lines y ∧ EditsBetween t x y before old new after ∧
      (Text.position before).1 = t.editLine (Text.lines x) := by
  have hrange : t.InRange (Text.lines x) := by
    by_contra hout
    rw [place_of_not_inRange hout] at h
    cases h
  obtain ⟨p, q, rfl, hposition⟩ := hrange.exists_split
  have hline := Target.editLine_of_position hposition
  rw [place_lines_append q hrange.1 hposition] at h
  cases hfind : find? idAttribute (q.take (extent q)) with
  | some found =>
    by_cases hvalue : found.value = t.agentId
    · simp [assign, hfind, hvalue, Placement.ofEdit] at h
    simp only [assign, hfind, if_neg hvalue, Placement.ofEdit, Placement.placed.injEq] at h
    exact ⟨_, _, _, _, _, h.1.symm, editsBetween_update hrange hposition hfind hvalue, by rw [hline, hfind]⟩
  | none =>
    cases hbracket : bracket? (Text.lines (p ++ q)) t with
    | none => simp [assign, hfind, hbracket, Placement.ofEdit] at h
    | some k =>
      have hplace := Target.position_of_bracket? hposition hbracket
      obtain ⟨name, hnamed, hopens⟩ := Target.opens_of_bracket? hbracket hplace
      simp only [assign, hfind, hbracket, Option.map_some, Placement.ofEdit, Placement.placed.injEq,
        Target.tagName_length_of_chars? hnamed] at h
      exact ⟨_, _, _, _, _, h.1.symm, editsBetween_insertion hrange hbracket hplace hnamed hopens,
        by rw [hline, hfind, position_take_name hopens]⟩

private theorem edits_of_placed {x : Text} {t : Target} {lines : List Text} {edit : Edit}
    (h : place (Text.lines x) t = .placed lines edit) : ∃ y, lines = Text.lines y ∧ Edits t x y := by
  obtain ⟨y, before, old, new, after, hlines, hedit, -⟩ := exists_edit_of_placed h
  exact ⟨y, hlines, before, old, new, after, hedit⟩

theorem Edits.inRange {t : Target} {x y : Text} (h : Edits t x y) : t.InRange (Text.lines x) := by
  obtain ⟨before, old, new, after, hedit⟩ := h
  exact hedit.inRange

/-- An edit whose identifier has no line feed leaves the number of line feeds. -/
theorem Edits.count_feed {t : Target} {x y : Text} (h : Edits t x y) (hid : '\n' ∉ t.agentId) :
    y.count '\n' = x.count '\n' := by
  obtain ⟨before, old, new, after, -, rfl, rfl, hexchange, -⟩ := h
  obtain ⟨hold, hnew⟩ := hexchange.feed_notMem hid
  simp [List.count_eq_zero.2 hold, List.count_eq_zero.2 hnew]

theorem Chain.count_feed {x z : Text} {steps : List Target} (h : Chain x steps z)
    (hids : ∀ t ∈ steps, '\n' ∉ t.agentId) : z.count '\n' = x.count '\n' := by
  induction h with
  | nil x => rfl
  | cons hfirst hrest ih =>
    rw [List.forall_mem_cons] at hids
    rw [ih hids.2, hfirst.count_feed hids.1]

namespace Pass

/-- A target is applied by an edit of its own, or leaves the lines as they are. It is counted once, if its
line is there, and otherwise not at all. -/
theorem step_cases {p : Pass} {x : Text} (h : p.lines = Text.lines x) (t : Target) :
    (∃ y, (p.step t).lines = Text.lines y ∧ Edits t x y ∧ (p.step t).applied = p.applied + 1 ∧
        (p.step t).skipped = p.skipped) ∨
      (p.step t).lines = Text.lines x ∧ (p.step t).applied = p.applied ∧
        ((p.step t).skipped = p.skipped ∨ (p.step t).skipped = p.skipped + 1 ∧ t.InRange (Text.lines x)) := by
  rw [← h]
  cases hplace : place p.lines t with
  | outOfRange => exact .inr (by rw [step, hplace]; exact ⟨rfl, rfl, .inl rfl⟩)
  | unlocated => exact .inr (by rw [step, hplace]; exact ⟨rfl, rfl, .inl rfl⟩)
  | kept =>
    have hrange := (place_eq_kept_iff.1 hplace).1
    exact .inr (by rw [step_of_kept hplace]; exact ⟨rfl, rfl, .inr ⟨rfl, hrange⟩⟩)
  | placed lines edit =>
    obtain ⟨hlines, happlied, hskipped⟩ := step_of_placed hplace
    rw [h] at hplace
    obtain ⟨y, rfl, hedits⟩ := edits_of_placed hplace
    exact .inl ⟨y, hlines, hedits, happlied, hskipped⟩

/-- A pass over targets from the bottom up is a chain of their edits. As an edit can add lines only below
the targets to come, a target whose line is there in the end had it in the beginning. -/
theorem exists_chain_foldl (source : List Text) {targets : List Target} {p : Pass} {x : Text}
    (hp : p.lines = Text.lines x) (horder : targets.Pairwise fun a b => a.precedes b = true)
    (hrange : ∀ t ∈ targets, t.InRange (Text.lines x) → t.InRange source) :
    ∃ steps z, (targets.foldl step p).lines = Text.lines z ∧ Chain x steps z ∧ steps.Sublist targets ∧
      (targets.foldl step p).applied = p.applied + steps.length ∧ (∀ t ∈ steps, t.InRange source) ∧
      (targets.foldl step p).applied + (targets.foldl step p).skipped ≤
        p.applied + p.skipped + targets.countP fun t => t.InRange source := by
  induction targets generalizing p x with
  | nil => exact ⟨[], x, hp, .nil x, .slnil, rfl, by simp, by simp⟩
  | cons t rest ih =>
    rw [List.pairwise_cons] at horder
    rw [List.forall_mem_cons] at hrange
    rw [List.foldl_cons, List.countP_cons]
    obtain ⟨y, hlines, hedits, happlied, hskipped⟩ | ⟨hlines, happlied, hskipped⟩ := step_cases hp t
    · have ht := hrange.1 hedits.inRange
      obtain ⟨steps, z, hz, hchain, hsub, hcount, hsteps, hle⟩ := ih hlines horder.2 (by
        intro u hu hinside
        have habove := horder.1 u hu
        have hbelow := ht.2
        rw [Target.precedes_iff] at habove
        refine ⟨hinside.1, ?_⟩
        rw [Target.lineIndex] at hbelow ⊢
        omega)
      refine ⟨t :: steps, z, hz, .cons hedits hchain, hsub.cons_cons t, ?_, ?_, ?_⟩
      · rw [hcount, happlied, List.length_cons]
        omega
      · rw [List.forall_mem_cons]
        exact ⟨ht, hsteps⟩
      · simp only [ht, decide_true, if_true]
        omega
    · obtain ⟨steps, z, hz, hchain, hsub, hcount, hsteps, hle⟩ := ih hlines horder.2 hrange.2
      refine ⟨steps, z, hz, hchain, hsub.cons t, by omega, hsteps, ?_⟩
      obtain hskipped | ⟨hskipped, hinside⟩ := hskipped
      · omega
      · simp only [hrange.1 hinside, decide_true, if_true]
        omega

end Pass

/-- A run is a chain of edits from the source to the result, one edit for each applied target, with the
targets from the bottom up. -/
theorem run_is_chain_of_edits (source : Text) (targets : List Target) :
    (∃ steps, Chain source steps (run source targets).text ∧
        steps.length = (run source targets).applied ∧ steps.Subperm targets ∧
        (steps.Pairwise fun a b => a.precedes b = true) ∧ ∀ t ∈ steps, t.InRange (Text.lines source)) ∧
      ((run source targets).modified = true ↔ 0 < (run source targets).applied) ∧
      ((run source targets).applied = 0 → (run source targets).text = source) ∧
      (run source targets).applied + (run source targets).skipped ≤
        (targets.countP fun t => t.InRange (Text.lines source)) ∧
      ((∀ t ∈ targets, '\n' ∉ t.agentId) →
        (Text.lines (run source targets).text).length = (Text.lines source).length) := by
  have hperm := inOrder_perm targets
  have horder := pairwise_inOrder targets
  obtain ⟨steps, z, hlines, hchain, hsub, happlied, hrange, hle⟩ :=
    Pass.exists_chain_foldl (Text.lines source) (p := { lines := Text.lines source }) rfl horder
      fun t _ h => h
  have htext : (run source targets).text = z := by rw [text_run, hlines, Text.unlines_lines]
  have hcount : steps.length = (run source targets).applied := by
    rw [Nat.zero_add] at happlied
    exact happlied.symm
  have hsubperm : steps.Subperm targets := hsub.subperm.trans hperm.subperm
  refine ⟨⟨steps, htext ▸ hchain, hcount, hsubperm, horder.sublist hsub, hrange⟩, ?_, ?_, ?_, ?_⟩
  · rw [Result.modified, decide_eq_true_iff]
  · intro hzero
    rw [hzero] at hcount
    rw [List.eq_nil_of_length_eq_zero hcount] at hchain
    cases hchain
    exact htext
  · rw [hperm.countP_eq] at hle
    simp only [Nat.zero_add] at hle
    exact hle
  · intro hids
    have hfeeds := hchain.count_feed fun t ht => hids t (hsubperm.subset ht)
    rw [htext, Text.length_lines, Text.length_lines, hfeeds]

/-- A tag over two lines without an identifier, and one with an identifier that is not where it is
reported. -/
def mixedPage : Text :=
  "<a\nb=\"\"> x\n<p data-agent-id='q'>".toList

def mixedTargets : List Target :=
  [{ agentId := "z".toList, line := 4, column := 1, type := "p".toList },
    { agentId := "p".toList, line := 3, column := 9, type := "p".toList },
    { agentId := "a".toList, line := 1, column := 2, type := "a".toList }]

theorem run_edits_mixedPage :
    (run mixedPage mixedTargets).text =
        "<a data-agent-id=\"a\"\nb=\"\"> x\n<p data-agent-id=\"p\">".toList ∧
      (∃ steps, Chain mixedPage steps (run mixedPage mixedTargets).text ∧ steps.length = 2) ∧
      (Text.lines (run mixedPage mixedTargets).text).length = 3 := by
  have horder : Target.inOrder mixedTargets = mixedTargets := inOrder_of_pairwise (by decide)
  have happlied : (run mixedPage mixedTargets).applied = 2 := by
    simp only [run, horder]
    decide +kernel
  obtain ⟨⟨steps, hchain, hlength, -⟩, -, -, -, hlines⟩ := run_is_chain_of_edits mixedPage mixedTargets
  refine ⟨?_, ⟨steps, hchain, hlength.trans happlied⟩, ?_⟩
  · simp only [run, horder]
    decide +kernel
  · exact (hlines (by decide +kernel)).trans (by decide +kernel)

end TagStamp.Stamp
