import TagStamp.Attribute.Edit
import Mathlib.Data.List.Induction
import Mathlib.Data.List.Infix
import Mathlib.Tactic.MkIffOfInductiveProp

namespace TagStamp.Attribute

/-- The character before an offset of a text that follows the given character. -/
def charBefore (last : Option Char) (text : Text) : Nat → Option Char
  | 0 => last
  | n + 1 => text[n]?

/-- The attribute that starts at an offset of a text. -/
def at? (name text : Text) (n : Nat) : Option Occurrence :=
  here? name (charBefore none text n) (text.drop n)

theorem charBefore_cons (last : Option Char) (c : Char) (rest : Text) (n : Nat) :
    charBefore last (c :: rest) (n + 1) = charBefore (some c) rest n := by
  cases n <;> rfl

/-- A value that is read ends at the quote it began with and stays on its line. -/
theorem eq_of_value?_eq_some {quote : Char} {text value after : Text}
    (h : value? quote text = some (value, after)) : text = value ++ quote :: after ∧ '\n' ∉ value := by
  -- The reader looks two characters ahead, so the induction carries the text and its tail.
  suffices hboth : ∀ text : Text,
      (∀ value after, value? quote text = some (value, after) →
        text = value ++ quote :: after ∧ '\n' ∉ value) ∧
      (∀ value after, value? quote text.tail = some (value, after) →
        text.tail = value ++ quote :: after ∧ '\n' ∉ value) from (hboth text).1 value after h
  intro text
  induction text with
  | nil => simp
  | cons c rest ih =>
    refine ⟨fun value after hvalue => ?_, ih.1⟩
    cases rest with
    | nil =>
      rw [value?_singleton] at hvalue
      split at hvalue
      · next hc =>
        cases hvalue
        simp [hc]
      · cases hvalue
    | cons d rest =>
      simp only [value?_cons_cons, Option.orElse_eq_orElse, Option.orElse_eq_or,
        Option.or_eq_some_iff] at hvalue
      obtain hescape | ⟨-, hplain | ⟨-, hstop⟩⟩ := hvalue
      · split at hescape
        · next hc =>
          obtain ⟨⟨v, a⟩, hrest, heq⟩ := Option.map_eq_some_iff.1 hescape
          cases heq
          obtain ⟨rfl, hfree⟩ := ih.2 v a hrest
          simp [hc.1, Ne.symm hc.2, hfree]
        · cases hescape
      · split at hplain
        · next hc =>
          obtain ⟨⟨v, a⟩, hrest, heq⟩ := Option.map_eq_some_iff.1 hplain
          cases heq
          obtain ⟨hsplit, hfree⟩ := ih.1 v a hrest
          simp [hsplit, Ne.symm hc.1, hfree]
        · cases hplain
      · split at hstop
        · next hc =>
          cases hstop
          simp [hc]
        · cases hstop

/-- Whether a quote right after the value ends it: no such quote stands in it, and every backslash takes a
character of the value with it. -/
def endsBefore (quote : Char) : Text → Bool
  | [] => true
  | [c] => c ≠ '\\' && c ≠ quote
  | c :: d :: rest => if c = '\\' then endsBefore quote rest else c ≠ quote && endsBefore quote (d :: rest)

theorem endsBefore_of_notMem {quote : Char} {value : Text} (hquote : quote ∉ value) (hslash : '\\' ∉ value) :
    endsBefore quote value = true := by
  induction value with
  | nil => rfl
  | cons c rest ih =>
    simp only [List.mem_cons, not_or] at hquote hslash
    have hrest := ih hquote.2 hslash.2
    cases rest with
    | nil => simp [endsBefore, Ne.symm hquote.1, Ne.symm hslash.1]
    | cons d rest =>
      rw [endsBefore, if_neg (Ne.symm hslash.1), hrest]
      simpa using Ne.symm hquote.1

theorem isValueQuote_ne {quote : Char} (h : isValueQuote quote = true) : quote ≠ '\\' ∧ quote ≠ '\n' := by
  constructor
  · rintro rfl
    simp [isValueQuote] at h
  · rintro rfl
    simp [isValueQuote] at h

/-- A value that a quote ends is read up to that quote. -/
theorem value?_append {quote : Char} (hquote : isValueQuote quote = true) {value : Text}
    (hends : endsBefore quote value = true) (hfree : '\n' ∉ value) (after : Text) :
    value? quote (value ++ quote :: after) = some (value, after) := by
  obtain ⟨hslash, -⟩ := isValueQuote_ne hquote
  fun_induction endsBefore quote value with
  | case1 =>
    cases after with
    | nil => simp [value?_singleton]
    | cons d rest => simp [value?_cons_cons, hslash]
  | case2 c =>
    simp only [Bool.and_eq_true, decide_eq_true_eq] at hends
    have hfeed : c ≠ '\n' := by simpa [eq_comm] using hfree
    cases after with
    | nil => simp [value?_cons_cons, value?_singleton, hends.1, hends.2, hfeed]
    | cons d rest => simp [value?_cons_cons, hslash, hends.1, hends.2, hfeed]
  | case3 d rest ih =>
    simp only [List.mem_cons, not_or] at hfree
    have hrest := ih hends hfree.2.2
    simp [value?_cons_cons, hrest, Ne.symm hfree.2.1]
  | case4 c d rest hc ih =>
    simp only [Bool.and_eq_true, decide_eq_true_eq] at hends
    have hrest := ih hends.2 (fun h => hfree (List.mem_cons_of_mem _ h))
    have hfeed : c ≠ '\n' := fun h => hfree (by simp [h])
    simp only [List.cons_append] at hrest ⊢
    simp [value?_cons_cons quote c d, hrest, hc, hends.1, hfeed]

/-- An attribute starts here exactly if the name begins a word, and an equals sign and a quoted value
follow it. -/
theorem here?_eq_some_iff {name : Text} {last : Option Char} {text : Text} {found : Occurrence} :
    here? name last text = some found ↔
      found.before = [] ∧ atBoundary last = true ∧ isValueQuote found.quote = true ∧
        ∃ rest, text = name ++ '=' :: found.quote :: rest ∧
          value? found.quote rest = some (found.value, found.after) := by
  unfold here?
  constructor
  · intro h
    split at h
    · next hname =>
      simp only [Bool.and_eq_true, List.isPrefixOf_iff_prefix] at hname
      obtain ⟨⟨tail, rfl⟩, hlast⟩ := hname
      rw [List.drop_left] at h
      split at h
      · next quote rest =>
        split at h
        · next hquote =>
          obtain ⟨⟨value, after⟩, hvalue, rfl⟩ := Option.map_eq_some_iff.1 h
          exact ⟨rfl, hlast, hquote, rest, rfl, hvalue⟩
        · cases h
      · cases h
    · cases h
  · rintro ⟨hbefore, hlast, hquote, rest, rfl, hvalue⟩
    obtain ⟨before, quote, value, after⟩ := found
    simp only at hbefore hquote hvalue ⊢
    subst hbefore
    simp [hlast, hquote, hvalue]

theorem here?_nil (name : Text) (last : Option Char) : here? name last [] = none := by
  rw [Option.eq_none_iff_forall_ne_some]
  intro found h
  obtain ⟨-, -, -, rest, htext, -⟩ := here?_eq_some_iff.1 h
  simp at htext

private theorem findAfter?_eq_none_iff {name : Text} {last : Option Char} {text : Text} :
    findAfter? name last text = none ↔
      ∀ n, here? name (charBefore last text n) (text.drop n) = none := by
  induction text generalizing last with
  | nil => simp [findAfter?, here?_nil]
  | cons c rest ih =>
    rw [findAfter?]
    constructor
    · intro h n
      cases hhere : here? name last (c :: rest) with
      | some found => simp [hhere] at h
      | none =>
        cases n with
        | zero => exact hhere
        | succ n =>
          rw [hhere, Option.map_eq_none_iff] at h
          rw [charBefore_cons]
          exact ih.1 h n
    · intro h
      have hhere : here? name last (c :: rest) = none := h 0
      rw [hhere, Option.map_eq_none_iff, ih]
      intro n
      rw [← charBefore_cons last c rest n]
      exact h (n + 1)

/-- The attribute with the given text before it starts at an offset, and none starts before that. -/
@[mk_iff]
structure LeftmostAt (name : Text) (last : Option Char) (text : Text) (found : Occurrence) (n : Nat) : Prop where
  starts : here? name (charBefore last text n) (text.drop n) = some { found with before := [] }
  before : found.before = text.take n
  le_length : n ≤ text.length
  first : ∀ m < n, here? name (charBefore last text m) (text.drop m) = none

/-- An attribute that starts at once is the leftmost one. -/
theorem exists_leftmostAt_of_here? {name : Text} {last : Option Char} {text : Text} {first found : Occurrence}
    (hhere : here? name last text = some first) : (∃ n, LeftmostAt name last text found n) ↔ first = found := by
  have hempty : { first with before := [] } = first := by rw [← (here?_eq_some_iff.1 hhere).1]
  constructor
  · rintro ⟨n, hn⟩
    cases n with
    | zero =>
      have hfound : { found with before := [] } = found := by
        rw [show ([] : Text) = found.before from hn.before.symm]
      have hsame := hn.starts
      rw [hfound] at hsame
      exact Option.some.inj (hhere.symm.trans hsame)
    | succ n => exact absurd (hhere.symm.trans (hn.first 0 (Nat.succ_pos n))) (by simp)
  · rintro rfl
    exact ⟨0, by rw [hempty]; exact hhere, (here?_eq_some_iff.1 hhere).1, by simp, by simp⟩

/-- Where none starts at once, the leftmost attribute is the leftmost one behind the first character. -/
theorem exists_leftmostAt_cons {name : Text} {last : Option Char} {c : Char} {rest : Text} {found : Occurrence}
    (hhere : here? name last (c :: rest) = none) :
    (∃ n, LeftmostAt name last (c :: rest) found n) ↔
      ∃ inner, (∃ n, LeftmostAt name (some c) rest inner n) ∧
        { inner with before := c :: inner.before } = found := by
  constructor
  · rintro ⟨n, hstarts, hbefore, hlength, hfirst⟩
    cases n with
    | zero => exact absurd (hhere.symm.trans hstarts) (by simp)
    | succ n =>
      rw [charBefore_cons] at hstarts
      refine ⟨{ found with before := rest.take n }, ⟨n, hstarts, rfl, by simpa using hlength, ?_⟩, ?_⟩
      · intro m hm
        rw [← charBefore_cons last c rest m]
        exact hfirst (m + 1) (by omega)
      · rw [List.take_succ_cons] at hbefore
        simp only [← hbefore]
  · rintro ⟨inner, ⟨n, hstarts, hbefore, hlength, hfirst⟩, rfl⟩
    refine ⟨n + 1, by rw [charBefore_cons]; exact hstarts, by simp [hbefore], by simpa using hlength, ?_⟩
    intro m hm
    cases m with
    | zero => exact hhere
    | succ m =>
      rw [charBefore_cons]
      exact hfirst m (by omega)

private theorem findAfter?_eq_some_iff {name : Text} {last : Option Char} {text : Text} {found : Occurrence} :
    findAfter? name last text = some found ↔ ∃ n, LeftmostAt name last text found n := by
  induction text generalizing last found with
  | nil =>
    constructor
    · intro h
      cases h
    · rintro ⟨n, hn⟩
      have hstarts := hn.starts
      rw [List.drop_nil, here?_nil] at hstarts
      cases hstarts
  | cons c rest ih =>
    rw [findAfter?]
    cases hhere : here? name last (c :: rest) with
    | some first => rw [exists_leftmostAt_of_here? hhere, Option.some.injEq]
    | none =>
      rw [exists_leftmostAt_cons hhere]
      simp only [Option.map_eq_some_iff, ih]

/-- The search finds nothing exactly if no attribute starts anywhere. -/
theorem find?_eq_none_iff {name text : Text} : find? name text = none ↔ ∀ n, at? name text n = none :=
  findAfter?_eq_none_iff

/-- The search finds an attribute exactly if it is the leftmost one. -/
theorem find?_eq_some_iff {name text : Text} {found : Occurrence} :
    find? name text = some found ↔
      ∃ n, at? name text n = some { found with before := [] } ∧ found.before = text.take n ∧
        n ≤ text.length ∧ ∀ m < n, at? name text m = none :=
  findAfter?_eq_some_iff.trans (exists_congr fun n => leftmostAt_iff name none text found n)

theorem prefix_drop_of_at? {name text : Text} {n : Nat} {found : Occurrence}
    (h : at? name text n = some found) :
    isValueQuote found.quote = true ∧ name ++ ['=', found.quote] <+: text.drop n := by
  obtain ⟨-, -, hquote, rest, htext, -⟩ := here?_eq_some_iff.1 h
  exact ⟨hquote, rest, by simp [htext]⟩

theorem find?_eq_none_of_absent {name text : Text} (h : ¬ name <:+: text) : find? name text = none := by
  rw [find?_eq_none_iff]
  intro n
  rw [Option.eq_none_iff_forall_ne_some]
  intro found hfound
  obtain ⟨-, hname⟩ := prefix_drop_of_at? hfound
  exact h (((List.prefix_append _ _).trans hname).isInfix.trans (List.drop_suffix n text).isInfix)

theorem charBefore_length (last : Option Char) (u v : Text) :
    charBefore last (u ++ v) u.length = u.getLast?.or last := by
  induction u using List.reverseRecOn with
  | nil => rfl
  | append_singleton u c => simp [charBefore]

/-- What was found, with the text around it, is the text that was searched. -/
theorem eq_of_find?_eq_some {name text : Text} {found : Occurrence} (h : find? name text = some found) :
    text = found.before ++ name ++ '=' :: found.quote :: found.value ++ found.quote :: found.after ∧
      '\n' ∉ found.value := by
  obtain ⟨n, hn, htake, -, -⟩ := find?_eq_some_iff.1 h
  obtain ⟨-, -, -, rest, htext, hvalue⟩ := here?_eq_some_iff.1 hn
  obtain ⟨hrest, hfree⟩ := eq_of_value?_eq_some hvalue
  refine ⟨?_, hfree⟩
  simp only at hrest htext
  calc text = text.take n ++ text.drop n := (List.take_append_drop n text).symm
    _ = found.before ++ (name ++ '=' :: found.quote :: rest) := by rw [← htake, htext]
    _ = _ := by simp [hrest]

/-- An attribute whose name begins a word is found if no other one starts before it. -/
theorem find?_append {name u value after : Text} {quote : Char} (hboundary : atBoundary u.getLast? = true)
    (hquote : isValueQuote quote = true) (hends : endsBefore quote value = true) (hfree : '\n' ∉ value)
    (hfirst : ∀ m < u.length, at? name (u ++ name ++ '=' :: quote :: value ++ quote :: after) m = none) :
    find? name (u ++ name ++ '=' :: quote :: value ++ quote :: after) = some ⟨u, quote, value, after⟩ := by
  rw [find?_eq_some_iff]
  refine ⟨u.length, ?_, by simp, by simp, hfirst⟩
  rw [at?, here?_eq_some_iff]
  refine ⟨rfl, ?_, hquote, value ++ quote :: after, by simp, value?_append hquote hends hfree after⟩
  simp only [List.append_assoc, charBefore_length, Option.or_none]
  exact hboundary

end TagStamp.Attribute
