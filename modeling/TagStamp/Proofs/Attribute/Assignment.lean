import TagStamp.Proofs.Attribute.Leftmost
import TagStamp.Proofs.Text.Lines

namespace TagStamp.Attribute

/-- An attribute begins at an offset: its name begins a word there, and an equals sign and a quote follow it.
Whether its value ends is another question. -/
@[mk_iff]
structure BeginsAt (name text : Text) (n : Nat) (quote : Char) : Prop where
  boundary : atBoundary (charBefore none text n) = true
  quoted : isValueQuote quote = true
  opening : name ++ ['=', quote] <+: text.drop n

instance (name text : Text) (n : Nat) (quote : Char) : Decidable (BeginsAt name text n quote) :=
  decidable_of_iff _ (beginsAt_iff name text n quote).symm

/-- Every attribute of the name that begins in the text ends on its line. -/
def Terminated (name text : Text) : Prop :=
  ∀ n quote, BeginsAt name text n quote → quote ∈ Text.firstLine (text.drop (n + name.length + 2))

/-- Whatever begins first is found: the leftmost attribute of the name that begins in the text, if any, ends. -/
def Clear (name text : Text) : Prop :=
  ∀ n quote, BeginsAt name text n quote → ∃ m ≤ n, (at? name text m).isSome = true

variable {name text tag : Text} {n : Nat} {quote : Char}

theorem isValueQuote_iff : isValueQuote quote = true ↔ quote ∈ ['\x22', '\x27'] := by
  simp [isValueQuote]

theorem BeginsAt.lt_length (h : BeginsAt name text n quote) : n < text.length := by
  have hlength := h.opening.length_le
  rw [List.length_append, List.length_drop, List.length_cons] at hlength
  omega

instance (name text : Text) : Decidable (Terminated name text) :=
  -- The two quotes are tried, not all characters.
  decidable_of_iff (∀ n < text.length, (['\x22', '\x27'].all fun quote =>
      decide (BeginsAt name text n quote → quote ∈ Text.firstLine (text.drop (n + name.length + 2)))) = true)
    ⟨fun h n quote hbegins => of_decide_eq_true
        (List.all_eq_true.1 (h n hbegins.lt_length) quote (isValueQuote_iff.1 hbegins.quoted)) hbegins,
      fun h n _ => List.all_eq_true.2 fun quote _ => decide_eq_true (h n quote)⟩

/-- A value can be read exactly if a quote to end it is on its line. -/
theorem isSome_value?_iff (hquote : isValueQuote quote = true) (rest : Text) :
    (value? quote rest).isSome = true ↔ quote ∈ Text.firstLine rest := by
  have hfeed := (isValueQuote_ne hquote).2
  constructor
  · intro hsome
    obtain ⟨⟨value, after⟩, hvalue⟩ := Option.isSome_iff_exists.1 hsome
    obtain ⟨rfl, hfree⟩ := eq_of_value?_eq_some hvalue
    rw [Text.firstLine_append_of_notMem hfree]
    simp [Text.firstLine, hfeed]
  · intro hmem
    induction rest with
    | nil => simp [Text.firstLine] at hmem
    | cons c rest ih =>
      by_cases hc : c = quote
      · cases rest with
        | nil => simp [value?_singleton, hc]
        | cons d rest => simp [value?_cons_cons, hc, Option.orElse_eq_or]
      · have hline : c ≠ '\n' := by
          rintro rfl
          simp [Text.firstLine] at hmem
        have hrest : quote ∈ Text.firstLine rest := by
          simpa [Text.firstLine, hline, Ne.symm hc] using hmem
        cases rest with
        | nil => simp [Text.firstLine] at hrest
        | cons d rest => simp [value?_cons_cons, hc, hline, ih hrest, Option.orElse_eq_or, Option.isSome_or]

/-- An attribute is found at an offset exactly if it begins there and ends on its line. -/
theorem isSome_at?_iff :
    (at? name text n).isSome = true ↔
      ∃ quote, BeginsAt name text n quote ∧ quote ∈ Text.firstLine (text.drop (n + name.length + 2)) := by
  have hrest {quote : Char} {rest : Text} (hsplit : text.drop n = name ++ '=' :: quote :: rest) :
      text.drop (n + name.length + 2) = rest := by
    rw [Nat.add_assoc, ← List.drop_drop, hsplit, ← List.drop_drop, List.drop_left]
    rfl
  constructor
  · intro hsome
    obtain ⟨found, hfound⟩ := Option.isSome_iff_exists.1 hsome
    obtain ⟨-, hboundary, hquote, rest, hsplit, hvalue⟩ := here?_eq_some_iff.1 hfound
    refine ⟨found.quote, ⟨hboundary, hquote, rest, by simp [hsplit]⟩, ?_⟩
    rw [hrest hsplit, ← isSome_value?_iff hquote, hvalue]
    rfl
  · rintro ⟨quote, ⟨hboundary, hquote, rest, hsplit⟩, hends⟩
    have hsplit : text.drop n = name ++ '=' :: quote :: rest := by simp [← hsplit]
    rw [hrest hsplit, ← isSome_value?_iff hquote] at hends
    obtain ⟨⟨value, after⟩, hvalue⟩ := Option.isSome_iff_exists.1 hends
    have hfound : at? name text n = some ⟨[], quote, value, after⟩ :=
      here?_eq_some_iff.2 ⟨rfl, hboundary, hquote, rest, hsplit, hvalue⟩
    rw [hfound]
    rfl

private theorem at?_eq_none_of_not_beginsAt (h : ∀ quote, ¬ BeginsAt name text n quote) : at? name text n = none := by
  by_contra hsome
  obtain ⟨quote, hbegins, -⟩ := isSome_at?_iff.1 (Option.isSome_iff_ne_none.2 hsome)
  exact h quote hbegins

theorem Terminated.clear (h : Terminated name text) : Clear name text :=
  fun n quote hbegins => ⟨n, Nat.le_refl n, isSome_at?_iff.2 ⟨quote, hbegins, h n quote hbegins⟩⟩

theorem Clear.not_beginsAt_of_none (h : Clear name text) (hfind : find? name text = none) (n : Nat) (quote : Char) :
    ¬ BeginsAt name text n quote := by
  intro hbegins
  obtain ⟨m, -, hsome⟩ := h n quote hbegins
  rw [find?_eq_none_iff.1 hfind m] at hsome
  cases hsome

theorem Clear.not_beginsAt_of_lt (h : Clear name text) {found : Occurrence} (hfind : find? name text = some found)
    (hn : n < found.before.length) (quote : Char) : ¬ BeginsAt name text n quote := by
  intro hbegins
  obtain ⟨m, hm, hsome⟩ := h n quote hbegins
  obtain ⟨k, -, hbefore, hlength, hfirst⟩ := find?_eq_some_iff.1 hfind
  rw [hbefore, List.length_take_of_le hlength] at hn
  rw [hfirst m (by omega)] at hsome
  cases hsome

/-- Whether an attribute begins is decided by the text up to its quote. -/
theorem beginsAt_append_iff {a : Text} (hlong : n + name.length + 2 ≤ a.length) (x : Text) :
    BeginsAt name (a ++ x) n quote ↔ BeginsAt name a n quote := by
  have hbefore : charBefore none (a ++ x) n = charBefore none a n := by
    cases n with
    | zero => rfl
    | succ n => exact List.getElem?_append_left (by omega)
  have hopening : name ++ ['=', quote] <+: (a ++ x).drop n ↔ name ++ ['=', quote] <+: a.drop n := by
    rw [List.drop_append_of_le_length (by omega)]
    refine ⟨fun h => ?_, fun h => h.trans (List.prefix_append _ _)⟩
    apply List.prefix_of_prefix_length_le h (List.prefix_append _ _)
    simp only [List.length_append, List.length_drop, List.length_cons, List.length_nil]
    omega
  rw [beginsAt_iff, beginsAt_iff, hbefore, hopening]

/-- An attribute that takes the place of another one is found if nothing of its name begins before it. -/
theorem find?_rewritten {u value : Text} (hboundary : atBoundary u.getLast? = true)
    (hends : endsBefore '\x22' value = true) (hfeed : '\n' ∉ value)
    (hfirst : ∀ m < u.length, ∀ quote, ¬ BeginsAt name (u ++ name ++ ['=']) m quote) (after : Text) :
    find? name (u ++ render name value ++ after) = some ⟨u, '\x22', value, after⟩ := by
  have hsplit : u ++ render name value ++ after = u ++ name ++ '=' :: '\x22' :: value ++ '\x22' :: after := by
    simp [render]
  rw [hsplit]
  refine find?_append hboundary rfl hends hfeed fun m hm => at?_eq_none_of_not_beginsAt fun quote hbegins => ?_
  have hcommon : u ++ name ++ '=' :: '\x22' :: value ++ '\x22' :: after =
      (u ++ name ++ ['=']) ++ ('\x22' :: value ++ '\x22' :: after) := by
    simp
  rw [hcommon, beginsAt_append_iff (by simp only [List.length_append, List.length_singleton]; omega)] at hbegins
  exact hfirst m hm quote hbegins

/-- An attribute that was found is exchanged, and found again in its place if nothing of its name begins before it. -/
theorem find?_exchanged {found : Occurrence} (hfind : find? name tag = some found)
    (hfirst : ∀ m < found.before.length, ∀ quote, ¬ BeginsAt name tag m quote) {value : Text}
    (hends : endsBefore '\x22' value = true) (hfeed : '\n' ∉ value) :
    find? name (found.before ++ render name value ++ found.after) =
      some ⟨found.before, '\x22', value, found.after⟩ := by
  obtain ⟨hsplit, -⟩ := eq_of_find?_eq_some hfind
  obtain ⟨n, hn, hbefore, hlength, -⟩ := find?_eq_some_iff.1 hfind
  have hboundary : atBoundary found.before.getLast? = true := by
    have hlast := charBefore_length none (tag.take n) (tag.drop n)
    rw [List.take_append_drop, List.length_take_of_le hlength, Option.or_none] at hlast
    rw [hbefore, ← hlast]
    exact (here?_eq_some_iff.1 hn).2.1
  refine find?_rewritten hboundary hends hfeed (fun m hm quote hbegins => hfirst m hm quote ?_) found.after
  -- the old and the new tag are the same up to the quote
  have hcommon : tag = (found.before ++ name ++ ['=']) ++
      (found.quote :: found.value ++ found.quote :: found.after) := by
    rw [hsplit]
    simp
  rw [hcommon, beginsAt_append_iff (by simp only [List.length_append, List.length_singleton]; omega)]
  exact hbegins

/-- An attribute that is inserted after a blank is found if nothing of its name begins before it. What begins
before it cannot reach over the blank. -/
theorem find?_inserted {u value : Text} (hname : ' ' ∉ name) (hends : endsBefore '\x22' value = true)
    (hfeed : '\n' ∉ value) (hfirst : ∀ m quote, ¬ BeginsAt name u m quote) (after : Text) :
    find? name (u ++ ' ' :: render name value ++ after) = some ⟨u ++ [' '], '\x22', value, after⟩ := by
  have hblank : u ++ ' ' :: render name value ++ after = (u ++ [' ']) ++ render name value ++ after := by simp
  rw [hblank]
  refine find?_rewritten ?_ hends hfeed (fun m hm quote hbegins => ?_) after
  · rw [List.getLast?_append, List.getLast?_singleton, Option.some_or]
    decide
  rw [List.length_append, List.length_singleton] at hm
  by_cases hlong : m + name.length + 2 ≤ u.length
  · rw [List.append_assoc, List.append_assoc, beginsAt_append_iff hlong] at hbegins
    exact hfirst m quote hbegins
  · -- the blank would be part of the name, the equals sign or the quote
    obtain ⟨rest, hrest⟩ := hbegins.opening
    have hchar : (name ++ ['=', quote] ++ rest)[u.length - m]? = some ' ' := by
      rw [hrest, List.getElem?_drop, Nat.add_sub_cancel' (by omega)]
      simp
    rw [List.getElem?_append_left (by simp only [List.length_append, List.length_cons, List.length_nil]; omega)]
      at hchar
    have hmem := List.mem_of_getElem? hchar
    have hquote := hbegins.quoted
    rw [isValueQuote_iff] at hquote
    simp only [List.mem_append, hname, List.mem_cons, List.not_mem_nil, or_false, false_or] at hmem hquote
    obtain hmem | rfl := hmem
    · exact absurd hmem (by decide)
    · exact absurd hquote (by decide)

/-- The tag after an attribute was given a value; `place` is where it goes if it is missing. -/
def assigned (tag name value : Text) (place : Nat) : Text :=
  (assign tag name value (some place)).text tag

/-- The first attribute of the name has the value already, in the given quotes. -/
def Holds (name : Text) (quote : Char) (value tag : Text) : Prop :=
  ∃ found, find? name tag = some found ∧ found.quote = quote ∧ found.value = value

instance (name : Text) (quote : Char) (value tag : Text) : Decidable (Holds name quote value tag) :=
  decidable_of_iff (∃ found ∈ find? name tag, found.quote = quote ∧ found.value = value) Iff.rfl

/-- Values of an attribute are written between two parts of the tag and found there. A value in single quotes
is not written again. -/
structure WritesBetween (name tag : Text) (place : Nat) (before after : Text) : Prop where
  written : ∀ value, ¬ Holds name '\x27' value tag →
    assigned tag name value place = before ++ render name value ++ after
  found : ∀ value, endsBefore '\x22' value = true → '\n' ∉ value →
    find? name (before ++ render name value ++ after) = some ⟨before, '\x22', value, after⟩

theorem assign_of_find? {found : Occurrence} (h : find? name tag = some found) (value : Text)
    (place : Option Nat) :
    assign tag name value place =
      if found.value = value then .kept else .updated (found.before ++ render name value ++ found.after) := by
  simp only [assign, h]

theorem assign_of_find?_none (h : find? name tag = none) (value : Text) (place : Nat) :
    assign tag name value (some place) =
      .inserted (tag.take place ++ ' ' :: render name value ++ tag.drop place) (opens name tag) := by
  simp only [assign, h]

theorem exists_writesBetween (hname : ' ' ∉ name) (hclear : Clear name tag) (place : Nat) :
    ∃ before after, WritesBetween name tag place before after := by
  cases hfind : find? name tag with
  | none =>
    have hfirst : ∀ m quote, ¬ BeginsAt name (tag.take place) m quote := by
      intro m quote hbegins
      have hlong := hbegins.opening.length_le
      simp only [List.length_append, List.length_drop, List.length_cons, List.length_nil] at hlong
      rw [← beginsAt_append_iff (by omega) (tag.drop place), List.take_append_drop] at hbegins
      exact hclear.not_beginsAt_of_none hfind m quote hbegins
    refine ⟨tag.take place ++ [' '], tag.drop place, fun value _ => ?_, fun value hends hfeed => ?_⟩
    · simp [assigned, assign_of_find?_none hfind, Edit.text]
    · have hfound := find?_inserted hname hends hfeed hfirst (tag.drop place)
      simpa using hfound
  | some found =>
    obtain ⟨hsplit, -⟩ := eq_of_find?_eq_some hfind
    obtain ⟨n, hn, -⟩ := find?_eq_some_iff.1 hfind
    have hquote := (here?_eq_some_iff.1 hn).2.2.1
    refine ⟨found.before, found.after, fun value hholds => ?_, fun value hends hfeed => ?_⟩
    · rw [assigned, assign_of_find? hfind]
      split
      · next hvalue =>
        have hdouble : found.quote = '\x22' := by
          rw [isValueQuote_iff, List.mem_cons, List.mem_singleton] at hquote
          exact hquote.resolve_right fun hsingle => hholds ⟨found, hfind, hsingle, hvalue⟩
        rw [hdouble, hvalue] at hsplit
        simpa [Edit.text, render] using hsplit
      · rfl
    · exact find?_exchanged hfind (fun m hm => hclear.not_beginsAt_of_lt hfind hm) hends hfeed

theorem assigned_of_holds {value : Text} (h : Holds name quote value tag) (place : Nat) :
    assigned tag name value place = tag := by
  obtain ⟨found, hfind, -, hvalue⟩ := h
  simp [assigned, assign_of_find? hfind, hvalue, Edit.text]

/-- A value that was found in double quotes is exchanged for any other one. -/
theorem assigned_of_double {before value after : Text}
    (h : find? name tag = some ⟨before, '\x22', value, after⟩) (value' : Text) (place : Nat) :
    assigned tag name value' place = before ++ render name value' ++ after := by
  obtain ⟨hsplit, -⟩ := eq_of_find?_eq_some h
  rw [assigned, assign_of_find? h]
  split
  · next hvalue =>
    simp only at hvalue hsplit
    subst hvalue
    simpa [Edit.text, render] using hsplit
  · rfl

/-- After an assignment the attribute has the value. -/
theorem exists_find?_assigned (hname : ' ' ∉ name) (hclear : Clear name tag) {value : Text}
    (hends : endsBefore '\x22' value = true) (hfeed : '\n' ∉ value) (place : Nat) :
    ∃ found, find? name (assigned tag name value place) = some found ∧ found.value = value := by
  obtain ⟨before, after, hwrites⟩ := exists_writesBetween hname hclear place
  by_cases hholds : Holds name '\x27' value tag
  · rw [assigned_of_holds hholds]
    obtain ⟨found, hfind, -, hvalue⟩ := hholds
    exact ⟨found, hfind, hvalue⟩
  · rw [hwrites.written value hholds]
    exact ⟨_, hwrites.found value hends hfeed, rfl⟩

/-- Of two values that are given one after the other only the later one is left, unless it stood there in single
quotes and was exchanged for the other one. -/
theorem assigned_assigned_iff (hname : ' ' ∉ name) (hclear : Clear name tag) {v w : Text}
    (hv : endsBefore '\x22' v = true ∧ '\n' ∉ v) (hw : endsBefore '\x22' w = true ∧ '\n' ∉ w) (place : Nat) :
    assigned (assigned tag name v place) name w place = assigned tag name w place ↔
      v = w ∨ ¬ Holds name '\x27' w tag := by
  obtain ⟨before, after, hwrites⟩ := exists_writesBetween hname hclear place
  by_cases hfirst : Holds name '\x27' v tag
  · -- the first value is there already, so nothing happens before the second one
    rw [assigned_of_holds hfirst]
    refine iff_of_true rfl ?_
    by_cases hsecond : Holds name '\x27' w tag
    · obtain ⟨found, hfind, -, rfl⟩ := hfirst
      obtain ⟨found', hfind', -, rfl⟩ := hsecond
      rw [hfind, Option.some.injEq] at hfind'
      exact .inl (by rw [hfind'])
    · exact .inr hsecond
  · rw [hwrites.written v hfirst, assigned_of_double (hwrites.found v hv.1 hv.2)]
    by_cases hsecond : Holds name '\x27' w tag
    · have hne : v ≠ w := by
        rintro rfl
        exact hfirst hsecond
      rw [assigned_of_holds hsecond]
      refine iff_of_false (fun heq => ?_) (by simp [hne, hsecond])
      -- what was written last stands in double quotes
      obtain ⟨found, hfind, hsingle, -⟩ := hsecond
      rw [← heq, hwrites.found w hw.1 hw.2, Option.some.injEq] at hfind
      rw [← hfind] at hsingle
      change '\x22' = '\x27' at hsingle
      exact absurd hsingle (by decide)
    · rw [hwrites.written w hsecond]
      exact iff_of_true rfl (.inr hsecond)

/-- With a place for a missing attribute, an edit is either applied or skipped. -/
theorem applied_ne_skipped (tag name value : Text) (place : Nat) :
    (assign tag name value (some place)).applied ≠ (assign tag name value (some place)).skipped := by
  cases hfind : find? name tag with
  | none => simp [assign_of_find?_none hfind, Edit.applied, Edit.skipped]
  | some found =>
    rw [assign_of_find? hfind]
    split <;> simp [Edit.applied, Edit.skipped]

/-- An edit is applied exactly if it changes the tag. -/
theorem applied_iff_assigned_ne (tag name value : Text) (place : Nat) :
    (assign tag name value (some place)).applied = true ↔ assigned tag name value place ≠ tag := by
  cases hfind : find? name tag with
  | none =>
    rw [assigned, assign_of_find?_none hfind]
    refine iff_of_true rfl fun heq => ?_
    have hlength := congrArg List.length heq
    simp only [Edit.text, List.length_append, List.length_cons, List.length_take, List.length_drop] at hlength
    omega
  | some found =>
    obtain ⟨hsplit, -⟩ := eq_of_find?_eq_some hfind
    rw [assigned, assign_of_find? hfind]
    split
    · simp [Edit.applied, Edit.text]
    · next hvalue =>
      refine iff_of_true rfl fun heq => hvalue ?_
      have hsame : found.before ++ (name ++ '=' :: '\x22' :: value ++ ['\x22']) ++ found.after =
          found.before ++ (name ++ '=' :: found.quote :: found.value ++ [found.quote]) ++ found.after := by
        simpa [Edit.text, render] using heq.trans hsplit
      have hvalues := List.append_inj_left' (List.append_cancel_left (List.append_cancel_right hsame)) rfl
      rw [List.append_cancel_left_eq, List.cons.injEq, List.cons.injEq] at hvalues
      exact hvalues.2.2.symm

/-- Names of one or more ASCII letters, digits, underscores and hyphens. -/
def IsAttributeName (name : Text) : Prop :=
  name ≠ [] ∧ ∀ c ∈ name, (c.isAlphanum || c == '_' || c == '-') = true

instance (name : Text) : Decidable (IsAttributeName name) :=
  decidable_of_iff (name ≠ [] ∧ (name.all fun c => c.isAlphanum || c == '_' || c == '-') = true)
    (by rw [List.all_eq_true, IsAttributeName])

theorem IsAttributeName.blank_notMem (h : IsAttributeName name) : ' ' ∉ name :=
  fun hmem => absurd (h.2 ' ' hmem) (by decide)

/-- The laws of giving an attribute a value, for tags in which no attribute of the name is left open. An edit is
either applied, and then it changes the tag, or skipped. A value that was given is kept when it is given
again. Of two values only the later one is left, unless it stood there in single quotes and was exchanged for
the other one. -/
theorem assign_obeys_update_laws {name tag v w : Text} (hname : IsAttributeName name)
    (hv : '\x22' ∉ v ∧ '\\' ∉ v ∧ '\n' ∉ v) (hw : '\x22' ∉ w ∧ '\\' ∉ w ∧ '\n' ∉ w) (htag : Terminated name tag)
    (place : Nat) :
    ((assign tag name v (some place)).applied ≠ (assign tag name v (some place)).skipped ∧
      ((assign tag name v (some place)).applied = true ↔ assigned tag name v place ≠ tag)) ∧
    ((assign (assigned tag name v place) name v (some place)).skipped = true ∧
      assigned (assigned tag name v place) name v place = assigned tag name v place) ∧
    (assigned (assigned tag name v place) name w place = assigned tag name w place ↔
      v = w ∨ ¬ Holds name '\x27' w tag) := by
  have hblank := hname.blank_notMem
  have hvEnds := endsBefore_of_notMem hv.1 hv.2.1
  have hwEnds := endsBefore_of_notMem hw.1 hw.2.1
  obtain ⟨found, hfind, hvalue⟩ := exists_find?_assigned hblank htag.clear hvEnds hv.2.2 place
  have hkept : assign (assigned tag name v place) name v (some place) = .kept := by
    rw [assign_of_find? hfind, if_pos hvalue]
  refine ⟨⟨applied_ne_skipped tag name v place, applied_iff_assigned_ne tag name v place⟩, ⟨?_, ?_⟩, ?_⟩
  · rw [hkept]
    rfl
  · rw [assigned, hkept]
    rfl
  · exact assigned_assigned_iff hblank htag.clear ⟨hvEnds, hv.2.2⟩ ⟨hwEnds, hw.2.2⟩ place

/-- A tag over two lines. The name stands in another name before the attribute, and in a string after it; the
value has the quote in it that it is written in. -/
def quotedTag : Text :=
  "<a data-id='n'\n id='x\\'y' c=\"id='z'\">".toList

theorem assign_obeys_update_laws_in_quotedTag :
    Terminated "id".toList quotedTag ∧ ¬ Holds "id".toList '\x27' "q".toList quotedTag ∧
      assigned quotedTag "id".toList "p".toList 2 = "<a data-id='n'\n id=\"p\" c=\"id='z'\">".toList ∧
      assigned (assigned quotedTag "id".toList "p".toList 2) "id".toList "q".toList 2 =
        assigned quotedTag "id".toList "q".toList 2 := by
  have htag : Terminated "id".toList quotedTag := by decide +kernel
  have hholds : ¬ Holds "id".toList '\x27' "q".toList quotedTag := by decide +kernel
  refine ⟨htag, hholds, by decide +kernel, ?_⟩
  exact (assign_obeys_update_laws (by decide) (by decide) (by decide) htag 2).2.2.2 (.inr hholds)

end TagStamp.Attribute
