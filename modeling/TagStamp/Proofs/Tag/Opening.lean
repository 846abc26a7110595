import TagStamp.Proofs.Text.Lines
import TagStamp.Tag.Start

namespace TagStamp.Tag

/-- The text begins with an opening tag of the given name. -/
def Opens (name q : Text) : Prop :=
  name ≠ [] ∧ '\n' ∉ name ∧ ∃ rest, q = '<' :: (name ++ rest) ∧ endsName rest = true

private theorem isBlank_feed : Text.isBlank '\n' = true := by
  simp [Text.isBlank, Text.inRanges, Text.blankRanges]

theorem isBlank_space : Text.isBlank ' ' = true := by
  simp [Text.isBlank, Text.inRanges, Text.blankRanges]

private theorem head?_ne_bracket_of_endsName {rest : Text} (h : endsName rest = true) : rest.head? ≠ some '<' := by
  cases rest with
  | nil => simp
  | cons c rest =>
    rw [List.head?_cons, ne_eq, Option.some.injEq]
    rintro rfl
    simp [endsName, Text.isBlank, Text.inRanges, Text.blankRanges] at h

/-- A name that ends in the text ends on its line, and the other way round. -/
theorem endsName_firstLine (rest : Text) : endsName (Text.firstLine rest) = endsName rest := by
  cases rest with
  | nil => rfl
  | cons c rest =>
    by_cases hc : c = '\n'
    · subst hc
      have hfirst : Text.firstLine ('\n' :: rest) = [] := rfl
      simp [hfirst, endsName, isBlank_feed]
    · have hfirst : Text.firstLine (c :: rest) = c :: Text.firstLine rest := by simp [Text.firstLine, hc]
      simp [hfirst, endsName]

theorem nameAt_iff {line name : Text} {position : Nat} :
    nameAt line position name = true ↔
      name ≠ [] ∧ ∃ rest, line.drop position = name ++ rest ∧ endsName rest = true := by
  unfold nameAt
  simp only [Bool.and_eq_true, Bool.not_eq_true', List.isEmpty_eq_false_iff, List.isPrefixOf_iff_prefix]
  constructor
  · rintro ⟨⟨hne, rest, hrest⟩, hends⟩
    refine ⟨hne, rest, hrest.symm, ?_⟩
    rwa [← List.drop_drop, ← hrest, List.drop_left] at hends
  · rintro ⟨hne, rest, hrest, hends⟩
    refine ⟨⟨hne, rest, hrest.symm⟩, ?_⟩
    rwa [← List.drop_drop, hrest, List.drop_left]

theorem start?_eq_some_iff {line name : Text} {column : Int} {k : Nat} :
    start? line column name = some k ↔ bracketNear line column = some k ∧ nameAt line (k + 1) name = true := by
  simp [start?, Option.filter_eq_some_iff]

/-- A position is within the tolerance of a column. -/
def Near (column : Int) (k : Nat) : Prop :=
  column - 1 - tolerance ≤ k ∧ k ≤ column - 1 + tolerance

/-- A position is tried before another one: the column itself before all others, these from left to right. -/
def TriedBefore (column : Int) (j k : Nat) : Prop :=
  (k : Int) ≠ column - 1 ∧ ((j : Int) = column - 1 ∨ column - 1 - tolerance ≤ j ∧ j < k)

/-- The bracket that is found is the first of the positions that are tried. -/
theorem bracketNear_eq_some_iff {text : Text} {column : Int} {k : Nat} :
    bracketNear text column = some k ↔
      text[k]? = some '<' ∧ Near column k ∧ ∀ j, TriedBefore column j k → text[j]? ≠ some '<' := by
  simp only [bracketNear, Near, TriedBefore]
  split
  · next hcolumn =>
    rw [Option.some.injEq]
    constructor
    · rintro rfl
      refine ⟨hcolumn.2, ?_, fun j hj => absurd (by omega) hj.1⟩
      simp only [tolerance]
      omega
    · rintro ⟨-, -, hfirst⟩
      by_contra hne
      exact hfirst (column - 1).toNat ⟨by omega, .inl (by omega)⟩ hcolumn.2
  · next hcolumn =>
    have hexact : ∀ j : Nat, (j : Int) = column - 1 → text[j]? ≠ some '<' := by
      intro j hj hchar
      exact hcolumn ⟨by omega, by rwa [← hj, Int.toNat_natCast]⟩
    have hfind := List.find?_range'_eq_some (s := (column - 1 - tolerance).toNat)
      (n := (column - 1 + tolerance + 1).toNat - (column - 1 - tolerance).toNat)
      (p := fun k => text[k]? == some '<') (i := k)
    simp only [window, hfind, beq_iff_eq, List.mem_range'_1]
    refine and_congr_right fun hchar => and_congr ?_ ⟨fun hleft j hj => ?_, fun hfirst j hfrom hj => ?_⟩
    · simp only [tolerance]
      omega
    · obtain ⟨-, hj | ⟨hfrom, hlt⟩⟩ := hj
      · exact hexact j hj
      · simpa using hleft j (by omega) hlt
    · have hk : (k : Int) ≠ column - 1 := fun hk => hexact k hk hchar
      simpa using hfirst j ⟨hk, .inr ⟨by omega, hj⟩⟩

theorem getElem?_of_bracketNear {text : Text} {column : Int} {k : Nat} (h : bracketNear text column = some k) :
    text[k]? = some '<' :=
  (bracketNear_eq_some_iff.1 h).1

/-- A tag that is found on a line is found whatever follows its name, as long as the name ends there. -/
theorem start?_take_append {text name rest : Text} {column : Int} {k : Nat}
    (h : start? text column name = some k) (hends : endsName rest = true) :
    start? (text.take (k + 1 + name.length) ++ rest) column name = some k := by
  obtain ⟨hbracket, hname⟩ := start?_eq_some_iff.1 h
  obtain ⟨hchar, hnear, hfirst⟩ := bracketNear_eq_some_iff.1 hbracket
  obtain ⟨hne, tail, htail, -⟩ := nameAt_iff.1 hname
  have hnamed : 0 < name.length := List.length_pos_iff.2 hne
  have hlength : (text.take (k + 1 + name.length)).length = k + 1 + name.length := by
    have hrest := congrArg List.length htail
    rw [List.length_drop, List.length_append] at hrest
    rw [List.length_take_of_le (by omega)]
  have hsame : ∀ j ≤ k + name.length, (text.take (k + 1 + name.length) ++ rest)[j]? = text[j]? := by
    intro j hj
    rw [List.getElem?_append_left (by omega), List.getElem?_take_of_lt (by omega)]
  rw [start?_eq_some_iff, bracketNear_eq_some_iff, nameAt_iff]
  refine ⟨⟨by rw [hsame k (by omega), hchar], hnear, fun j hj => ?_⟩, hne, rest, ?_, hends⟩
  · by_cases hinside : j ≤ k + name.length
    · rw [hsame j hinside]
      exact hfirst j hj
    · -- Only the column itself is tried to the right of the bracket: it may be right after a name of one letter.
      have hj : j = k + 1 + name.length := by
        simp only [Near, TriedBefore, tolerance] at hnear hj
        omega
      rw [hj, List.getElem?_append_right (by omega), hlength, Nat.sub_self, ← List.head?_eq_getElem?]
      exact head?_ne_bracket_of_endsName hends
  · rw [List.drop_append_of_le_length (by omega), List.drop_take, htail, Nat.add_sub_cancel_left, List.take_left]

/-- The bracket found on a line opens a tag in the text. -/
theorem opens_of_start? {a q name : Text} {column : Int}
    (h : start? (a ++ Text.firstLine q) column name = some a.length) : Opens name q := by
  obtain ⟨hbracket, hname⟩ := start?_eq_some_iff.1 h
  have hchar := getElem?_of_bracketNear hbracket
  obtain ⟨hne, rest, hrest, hends⟩ := nameAt_iff.1 hname
  rw [List.getElem?_append_right (Nat.le_refl _), Nat.sub_self] at hchar
  rw [← List.drop_drop, List.drop_left] at hrest
  obtain ⟨tail, htail⟩ : ∃ tail, Text.firstLine q = '<' :: tail := by
    cases hfirst : Text.firstLine q with
    | nil => simp [hfirst] at hchar
    | cons c tail => exact ⟨tail, by simpa [hfirst] using hchar⟩
  rw [htail] at hrest
  have htail' : tail = name ++ rest := hrest
  obtain ⟨others, hothers⟩ := List.takeWhile_prefix (l := q) (· ≠ '\n')
  change Text.firstLine q ++ others = q at hothers
  have hfree := Text.notMem_firstLine q
  rw [htail, htail'] at hfree
  simp only [List.mem_cons, List.mem_append, not_or] at hfree
  refine ⟨hne, hfree.2.1, rest ++ others, ?_, ?_⟩
  · rw [← hothers, htail, htail']
    simp
  · have hline : Text.firstLine (rest ++ others) = rest := by
      have hfirst := Text.firstLine_append_of_notMem (p := '<' :: name) (by simp [hfree.2.1]) (rest ++ others)
      rw [show '<' :: name ++ (rest ++ others) = q by rw [← hothers, htail, htail']; simp, htail, htail'] at hfirst
      simpa using hfirst.symm
    rw [← endsName_firstLine, hline]
    exact hends

/-- A tag that goes on after its name opens whatever follows it. -/
theorem opens_append {name rest : Text} (hne : name ≠ []) (hfree : '\n' ∉ name) (hends : endsName rest = true)
    (hrest : rest ≠ []) (after : Text) : Opens name ('<' :: (name ++ rest) ++ after) := by
  refine ⟨hne, hfree, rest ++ after, by simp, ?_⟩
  obtain ⟨c, rest, rfl⟩ := List.exists_cons_of_ne_nil hrest
  exact hends

theorem Opens.firstLine_eq {name q : Text} (h : Opens name q) :
    ∃ rest, Text.firstLine q = '<' :: (name ++ rest) ∧ endsName rest = true := by
  obtain ⟨-, hfree, rest, rfl, hends⟩ := h
  refine ⟨Text.firstLine rest, ?_, by rwa [endsName_firstLine]⟩
  rw [← List.cons_append, Text.firstLine_append_of_notMem (by simp [hfree])]
  rfl

theorem Opens.nameAt {name q : Text} (h : Opens name q) (a : Text) :
    nameAt (a ++ Text.firstLine q) (a.length + 1) name = true := by
  obtain ⟨rest, hline, hends⟩ := h.firstLine_eq
  rw [nameAt_iff]
  refine ⟨h.1, rest, ?_, hends⟩
  rw [← List.drop_drop, List.drop_left, hline]
  rfl

/-- A tag is found at its own column. -/
theorem Opens.start? {name q : Text} (h : Opens name q) (a : Text) :
    start? (a ++ Text.firstLine q) (a.length + 1) name = some a.length := by
  obtain ⟨rest, hline, -⟩ := h.firstLine_eq
  rw [start?_eq_some_iff]
  refine ⟨?_, h.nameAt a⟩
  unfold bracketNear
  simp [hline]

/-- A tag that was found from some column is found from there whatever follows its name. -/
theorem Opens.start?_of_start? {name q q' a : Text} {column : Int} (hq' : Opens name q')
    (h : Tag.start? (a ++ Text.firstLine q) column name = some a.length) :
    Tag.start? (a ++ Text.firstLine q') column name = some a.length := by
  obtain ⟨rest, hline, -⟩ := (opens_of_start? h).firstLine_eq
  obtain ⟨rest', hline', hends'⟩ := hq'.firstLine_eq
  have hfound := start?_take_append h hends'
  have hsplit (tail : Text) : a ++ '<' :: (name ++ tail) = (a ++ '<' :: name) ++ tail := by simp
  have hlength : a.length + 1 + name.length = (a ++ '<' :: name).length := by
    simp only [List.length_append, List.length_cons]
    omega
  rwa [hline, hsplit, hlength, List.take_left, ← hsplit, ← hline'] at hfound

end TagStamp.Tag
