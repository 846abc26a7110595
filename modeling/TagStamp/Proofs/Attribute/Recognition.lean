import Mathlib.Order.Bounds.Basic
import TagStamp.Proofs.Attribute.Assignment

namespace TagStamp.Attribute

/-- An attribute stands at an offset: it begins there, and a second quote of its kind follows on the line. -/
def StandsAt (name text : Text) (n : Nat) : Prop :=
  ∃ quote, BeginsAt name text n quote ∧ quote ∈ Text.firstLine (text.drop (n + name.length + 2))

/-- Offset of the first quote that is reached on the line by a reader that skips every backslash together with
the character after it. -/
def closing? (quote : Char) : Text → Option Nat
  | [] => none
  | [c] => if c = quote then some 0 else none
  | c :: d :: rest =>
    if c = quote then some 0
    else if c = '\n' then none
    else if c = '\\' ∧ d ≠ '\n' then (closing? quote rest).map (· + 2)
    else (closing? quote (d :: rest)).map (· + 1)

/-- How an attribute is written in the text it was found in. -/
def Occurrence.written (name : Text) (found : Occurrence) : Text :=
  name ++ '=' :: found.quote :: found.value ++ [found.quote]

/-- The value of an attribute ends where it should, given the text behind its first quote. -/
def EndsProperly (quote : Char) (rest value after : Text) : Prop :=
  closing? quote rest = some value.length ∨ closing? quote rest = none ∧ quote ∉ Text.firstLine after

/-- The leftmost attribute that stands in a text, with its value and the text around it. -/
structure Recognized (name text : Text) (found : Occurrence) : Prop where
  leftmost : IsLeast {n | StandsAt name text n} found.before.length
  split : text = found.before ++ found.written name ++ found.after
  feed : '\n' ∉ found.value
  ends : EndsProperly found.quote (found.value ++ found.quote :: found.after) found.value found.after

variable {name text tag : Text} {n : Nat} {quote : Char}

/-- A quote behind characters of the line is on the line. -/
theorem quote_mem_firstLine (hquote : isValueQuote quote = true) {value : Text} (hfeed : '\n' ∉ value)
    (after : Text) : quote ∈ Text.firstLine (value ++ quote :: after) := by
  rw [Text.firstLine_append_of_notMem hfeed]
  simp [Text.firstLine, (isValueQuote_ne hquote).2]

/-- A quote that the skipping reader reaches ends the value. The first way to go on that the search tries is
always the one that this reader takes. -/
theorem value?_of_closing? (hquote : isValueQuote quote = true) {k : Nat} (h : closing? quote text = some k) :
    value? quote text = some (text.take k, text.drop (k + 1)) := by
  have hslash := (isValueQuote_ne hquote).1
  fun_induction closing? quote text generalizing k with
  | case1 => cases h
  | case2 =>
    cases h
    simp [value?_singleton]
  | case3 c hc => cases h
  | case4 d rest =>
    cases h
    simp [value?_cons_cons, hslash]
  | case5 d rest hc => cases h
  | case6 c d rest hc hfeed hescape ih =>
    obtain ⟨k, hk, rfl⟩ := Option.map_eq_some_iff.1 h
    simp [value?_cons_cons, hescape, ih hk]
  | case7 c d rest hc hfeed hplain ih =>
    obtain ⟨k, hk, rfl⟩ := Option.map_eq_some_iff.1 h
    simp [value?_cons_cons quote c, hplain, hc, hfeed, ih hk]

/-- If the skipping reader reaches no quote, the value ends at the last quote of the line. -/
theorem quote_notMem_of_closing?_eq_none (hquote : isValueQuote quote = true) {value after : Text}
    (h : closing? quote text = none) (hvalue : value? quote text = some (value, after)) :
    quote ∉ Text.firstLine after := by
  fun_induction closing? quote text generalizing value with
  | case1 => cases hvalue
  | case2 => cases h
  | case3 c hc => simp [value?_singleton, hc] at hvalue
  | case4 d rest => cases h
  | case5 d rest hc => simp [value?_cons_cons, hc] at hvalue
  | case6 c d rest hc hfeed hescape ih =>
    rw [Option.map_eq_none_iff] at h
    simp only [value?_cons_cons, if_pos hescape, if_pos (And.intro hfeed hc), if_neg hc, Option.orElse_eq_orElse,
      Option.orElse_eq_or, Option.or_none, Option.or_eq_some_iff, Option.map_eq_some_iff, Prod.mk.injEq] at hvalue
    obtain ⟨⟨v, a⟩, hrest, rfl, rfl⟩ | ⟨hnone, ⟨v, a⟩, hplain, rfl, rfl⟩ := hvalue
    · exact ih h hrest
    · -- Nothing ends behind the escaped character, so it is that character itself that ends the value.
      rw [Option.map_eq_none_iff, ← Option.not_isSome_iff_eq_none, isSome_value?_iff hquote] at hnone
      obtain ⟨hsplit, hfree⟩ := eq_of_value?_eq_some hplain
      cases v with
      | nil =>
        cases hsplit
        exact hnone
      | cons e v =>
        cases hsplit
        exact absurd (quote_mem_firstLine hquote (fun hmem => hfree (List.mem_cons_of_mem _ hmem)) a) hnone
  | case7 c d rest hc hfeed hplain ih =>
    rw [Option.map_eq_none_iff] at h
    simp only [value?_cons_cons, if_neg hplain, if_pos (And.intro hfeed hc), if_neg hc, Option.orElse_eq_orElse,
      Option.orElse_eq_or, Option.or_none, Option.none_or, Option.map_eq_some_iff, Prod.mk.injEq] at hvalue
    obtain ⟨⟨v, a⟩, hrest, rfl, rfl⟩ := hvalue
    exact ih h hrest

/-- A line is divided in one way only at its last quote. -/
theorem length_le_of_last_quote (hquote : isValueQuote quote = true) {value after value' after' : Text}
    (heq : value ++ quote :: after = value' ++ quote :: after') (hfeed : '\n' ∉ value')
    (hlast : quote ∉ Text.firstLine after) : value'.length ≤ value.length := by
  by_contra hlong
  obtain ⟨gap, rfl⟩ : value ++ [quote] <+: value' := by
    have hshort : value ++ [quote] <+: value ++ quote :: after := ⟨after, by simp⟩
    refine List.prefix_of_prefix_length_le hshort ⟨quote :: after', heq.symm⟩ ?_
    simp only [List.length_append, List.length_singleton]
    omega
  have hgap : after = gap ++ quote :: after' := by simpa using heq
  have hfree : '\n' ∉ gap := fun hmem => hfeed (List.mem_append_right _ hmem)
  rw [hgap] at hlast
  exact hlast (quote_mem_firstLine hquote hfree after')

/-- What is read as a value: a part of the line up to a quote, and of the quotes the one that should end it. -/
theorem value?_eq_some_iff (hquote : isValueQuote quote = true) {value after : Text} :
    value? quote text = some (value, after) ↔
      text = value ++ quote :: after ∧ '\n' ∉ value ∧ EndsProperly quote text value after := by
  constructor
  · intro hvalue
    obtain ⟨hsplit, hfree⟩ := eq_of_value?_eq_some hvalue
    refine ⟨hsplit, hfree, ?_⟩
    cases hclosing : closing? quote text with
    | none => exact .inr ⟨hclosing, quote_notMem_of_closing?_eq_none hquote hclosing hvalue⟩
    | some k =>
      left
      rw [value?_of_closing? hquote hclosing, Option.some.injEq, Prod.mk.injEq] at hvalue
      have hlength := congrArg List.length hsplit
      have hbefore := congrArg List.length hvalue.1
      have hafter := congrArg List.length hvalue.2
      simp only [List.length_append, List.length_cons, List.length_take, List.length_drop] at hlength hbefore hafter
      rw [hclosing, Option.some.injEq]
      omega
  · rintro ⟨hsplit, hfree, hclosing | ⟨hnone, hlast⟩⟩
    · rw [value?_of_closing? hquote hclosing, hsplit]
      simp
    · have hsome : (value? quote text).isSome = true := by
        rw [isSome_value?_iff hquote, hsplit]
        exact quote_mem_firstLine hquote hfree after
      obtain ⟨⟨value', after'⟩, hvalue'⟩ := Option.isSome_iff_exists.1 hsome
      obtain ⟨hsplit', hfree'⟩ := eq_of_value?_eq_some hvalue'
      have hlast' := quote_notMem_of_closing?_eq_none hquote hnone hvalue'
      have heq := hsplit.symm.trans hsplit'
      have hlength : value.length = value'.length := Nat.le_antisymm
        (length_le_of_last_quote hquote heq.symm hfree hlast') (length_le_of_last_quote hquote heq hfree' hlast)
      obtain ⟨rfl, hafter⟩ := List.append_inj heq hlength
      cases hafter
      exact hvalue'

theorem isSome_at?_iff_standsAt : (at? name text n).isSome = true ↔ StandsAt name text n :=
  isSome_at?_iff

theorem find?_eq_none_iff_not_standsAt : find? name text = none ↔ ∀ n, ¬ StandsAt name text n := by
  simp only [find?_eq_none_iff, ← isSome_at?_iff_standsAt, Option.not_isSome_iff_eq_none]

theorem Recognized.drop_eq {found : Occurrence} (h : Recognized name text found) :
    text.drop found.before.length = name ++ '=' :: found.quote :: (found.value ++ found.quote :: found.after) := by
  rw [h.split, List.append_assoc, List.drop_left]
  simp [Occurrence.written]

/-- The attribute that was recognized begins with the quote it is said to have. -/
theorem Recognized.beginsAt {found : Occurrence} (h : Recognized name text found) :
    BeginsAt name text found.before.length found.quote := by
  obtain ⟨quote, hbegins, -⟩ := h.leftmost.1
  obtain ⟨rest, hrest⟩ := hbegins.opening
  rw [h.drop_eq, List.append_assoc, List.append_cancel_left_eq] at hrest
  cases hrest
  exact hbegins

theorem recognized_of_find? {found : Occurrence} (h : find? name text = some found) :
    Recognized name text found := by
  obtain ⟨n, hn, hbefore, hlength, hfirst⟩ := find?_eq_some_iff.1 h
  obtain ⟨-, -, hquote, rest, hdrop, hvalue⟩ := here?_eq_some_iff.1 hn
  obtain ⟨rfl, hfree, hends⟩ := (value?_eq_some_iff hquote).1 hvalue
  have hn' : found.before.length = n := by rw [hbefore, List.length_take_of_le hlength]
  refine ⟨?_, ?_, hfree, hends⟩
  · rw [hn']
    refine ⟨isSome_at?_iff_standsAt.1 (by rw [hn]; rfl), fun m hm => ?_⟩
    by_contra hlt
    have hsome := isSome_at?_iff_standsAt.2 hm
    rw [hfirst m (by omega)] at hsome
    cases hsome
  · calc text = text.take n ++ text.drop n := (List.take_append_drop n text).symm
      _ = found.before ++ (name ++ '=' :: found.quote :: (found.value ++ found.quote :: found.after)) := by
        rw [← hbefore, hdrop]
      _ = _ := by simp [Occurrence.written]

theorem Recognized.find? {found : Occurrence} (h : Recognized name text found) :
    find? name text = some found := by
  have hbegins := h.beginsAt
  have hvalue := (value?_eq_some_iff hbegins.quoted).2 ⟨rfl, h.feed, h.ends⟩
  rw [find?_eq_some_iff]
  refine ⟨found.before.length, ?_, ?_, ?_, fun m hm => ?_⟩
  · rw [at?, here?_eq_some_iff]
    exact ⟨rfl, hbegins.boundary, hbegins.quoted, _, h.drop_eq, hvalue⟩
  · rw [h.split, List.append_assoc, List.take_left]
  · exact Nat.le_of_lt hbegins.lt_length
  · by_contra hsome
    have hstands := isSome_at?_iff_standsAt.1 (Option.isSome_iff_ne_none.2 hsome)
    exact Nat.not_le_of_lt hm (h.leftmost.2 hstands)

/-- An attribute is found at an offset exactly if it is the first one that stands in the text. -/
theorem exists_find?_at_iff {p : Nat} :
    (∃ found, find? name text = some found ∧ found.before.length = p) ↔ IsLeast {n | StandsAt name text n} p := by
  constructor
  · rintro ⟨found, hfind, rfl⟩
    exact (recognized_of_find? hfind).leftmost
  · intro hleast
    cases hfind : find? name text with
    | none => exact absurd hleast.1 (find?_eq_none_iff_not_standsAt.1 hfind p)
    | some found => exact ⟨found, rfl, (recognized_of_find? hfind).leftmost.unique hleast⟩

/-- An attribute is inserted exactly if none stands in the tag. -/
theorem assign_eq_inserted_iff (value : Text) (place : Nat) :
    (∃ text malformed, assign tag name value (some place) = .inserted text malformed) ↔
      ∀ n, ¬ StandsAt name tag n := by
  rw [← find?_eq_none_iff_not_standsAt]
  cases hfind : find? name tag with
  | none => simp [assign_of_find?_none hfind]
  | some found =>
    rw [assign_of_find? hfind]
    split <;> simp

/-- An attribute that is found is exchanged at most, and nothing around it changes. -/
theorem text_assign_of_recognized {found : Occurrence} (h : Recognized name tag found) (value : Text)
    (place : Option Nat) :
    (assign tag name value place).text tag =
      found.before ++ (if found.value = value then found.written name else render name value) ++ found.after := by
  rw [assign_of_find? h.find?]
  split
  · exact h.split
  · rfl

/-- The search finds exactly the leftmost attribute that stands in the tag, with the value that ends at the first
quote no backslash takes along, or else at the last quote of the line. An assignment inserts the attribute
exactly if none stands in the tag, and otherwise exchanges at most the one that is found. -/
theorem search_recognizes_leftmost (name tag : Text) :
    (∀ found, find? name tag = some found ↔ Recognized name tag found) ∧
      (∀ p, (∃ found, find? name tag = some found ∧ found.before.length = p) ↔
        IsLeast {n | StandsAt name tag n} p) ∧
      ∀ (value : Text) (place : Nat),
        ((∃ text malformed, assign tag name value (some place) = .inserted text malformed) ↔
          ∀ n, ¬ StandsAt name tag n) ∧
        ∀ found, Recognized name tag found →
          (assign tag name value (some place)).text tag =
            found.before ++ (if found.value = value then found.written name else render name value) ++
              found.after := by
  refine ⟨fun found => ⟨recognized_of_find?, Recognized.find?⟩, fun p => exists_find?_at_iff, fun value place => ?_⟩
  exact ⟨assign_eq_inserted_iff value place, fun found h => text_assign_of_recognized h value (some place)⟩

/-- A tag over two lines. The first attribute does not end on its line, and the only quote that can end the second
one has a backslash before it. -/
def slashedTag : Text :=
  "<a id=\"n\n id=\x27x\\\x27>".toList

theorem search_recognizes_leftmost_in_slashedTag :
    Recognized "id".toList slashedTag ⟨"<a id=\"n\n ".toList, '\x27', "x\\".toList, ">".toList⟩ ∧
      closing? '\x27' "x\\\x27>".toList = none ∧
      (assign slashedTag "id".toList "y".toList (some 2)).text slashedTag =
        "<a id=\"n\n id=\"y\">".toList := by
  have hlaws := search_recognizes_leftmost "id".toList slashedTag
  have hfound := (hlaws.1 ⟨"<a id=\"n\n ".toList, '\x27', "x\\".toList, ">".toList⟩).1 (by decide +kernel)
  refine ⟨hfound, by decide, ?_⟩
  rw [(hlaws.2.2 "y".toList 2).2 _ hfound]
  decide

end TagStamp.Attribute
