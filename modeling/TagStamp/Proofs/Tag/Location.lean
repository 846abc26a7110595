import TagStamp.Proofs.Tag.Opening

namespace TagStamp.Tag

variable {text name : Text} {column : Int} {k : Nat}

/-- The bracket that opens the named tag near a column. -/
structure Locates (text : Text) (column : Int) (name : Text) (k : Nat) : Prop where
  bracket : text[k]? = some '<'
  near : ((k : Int) - (column - 1)).natAbs ≤ 2
  nonempty : name ≠ []
  named : name <+: text.drop (k + 1)
  ends : ∀ c, text[k + 1 + name.length]? = some c → Text.isBlank c = true ∨ c = '/' ∨ c = '>'
  first : ∀ j, TriedBefore column j k → text[j]? ≠ some '<'

private theorem near_iff : Near column k ↔ ((k : Int) - (column - 1)).natAbs ≤ 2 := by
  simp only [Near, tolerance]
  omega

/-- A name ends unless some other character follows it. -/
theorem endsName_iff {rest : Text} :
    endsName rest = true ↔ ∀ c, rest.head? = some c → Text.isBlank c = true ∨ c = '/' ∨ c = '>' := by
  cases rest with
  | nil => simp [endsName]
  | cons c rest => simp [endsName, or_assoc]

private theorem nameAt_iff_prefix {position : Nat} :
    nameAt text position name = true ↔ name ≠ [] ∧ name <+: text.drop position ∧
      ∀ c, text[position + name.length]? = some c → Text.isBlank c = true ∨ c = '/' ∨ c = '>' := by
  rw [nameAt_iff]
  refine and_congr_right fun _ => ⟨?_, ?_⟩
  · intro ⟨rest, hrest, hends⟩
    refine ⟨⟨rest, hrest.symm⟩, fun c hc => endsName_iff.1 hends c ?_⟩
    rwa [← List.getElem?_drop, hrest, List.getElem?_append_right (Nat.le_refl _), Nat.sub_self,
      ← List.head?_eq_getElem?] at hc
  · intro ⟨⟨rest, hrest⟩, hends⟩
    refine ⟨rest, hrest.symm, endsName_iff.2 fun c hc => hends c ?_⟩
    rwa [← List.getElem?_drop, ← hrest, List.getElem?_append_right (Nat.le_refl _), Nat.sub_self,
      ← List.head?_eq_getElem?]

theorem start?_eq_some_iff_locates : start? text column name = some k ↔ Locates text column name k := by
  rw [start?_eq_some_iff, bracketNear_eq_some_iff, nameAt_iff_prefix, near_iff]
  constructor
  · intro ⟨⟨hbracket, hnear, hfirst⟩, hne, hnamed, hends⟩
    exact ⟨hbracket, hnear, hne, hnamed, hends, hfirst⟩
  · intro h
    exact ⟨⟨h.bracket, h.near, h.first⟩, h.nonempty, h.named, h.ends⟩

/-- A blank ends a name, whatever comes after it. -/
theorem start?_insert_blank (h : start? text column name = some k) (x : Text) :
    start? (text.take (k + 1 + name.length) ++ (' ' :: x ++ text.drop (k + 1 + name.length))) column name = some k := by
  apply start?_take_append h
  simp [endsName, isBlank_space]

/-- The character behind a name ends it, whatever comes after that. -/
theorem start?_take_succ_append (h : start? text column name = some k) {c : Char}
    (hc : text[k + 1 + name.length]? = some c) (x : Text) :
    start? (text.take (k + 1 + name.length + 1) ++ x) column name = some k := by
  have hends := (start?_eq_some_iff_locates.1 h).ends c hc
  rw [List.take_add_one, hc, Option.toList_some, List.append_assoc]
  apply start?_take_append h
  rw [List.singleton_append, endsName_iff]
  intro d hd
  rw [List.head?_cons, Option.some.injEq] at hd
  exact hd ▸ hends

/-- A tag is found exactly at an opening bracket within two characters of its column, with the whole name behind it
and no bracket at a position that is tried before. The place for an attribute is right after the name; whatever is
put there with a blank before it, the tag is found at the same position from the same column, and so it is if
everything after the character behind the name is exchanged. -/
theorem start?_is_sound_and_stable (text : Text) (column : Int) (name : Text) (k : Nat) :
    (start? text column name = some k ↔ Locates text column name k) ∧
    (start? text column name = some k →
      insertion? text column name = some (k + 1 + name.length) ∧
      (∀ x : Text, start? (text.take (k + 1 + name.length) ++ (' ' :: x ++ text.drop (k + 1 + name.length))) column
        name = some k) ∧
      ∀ c, text[k + 1 + name.length]? = some c → ∀ x : Text,
        start? (text.take (k + 1 + name.length + 1) ++ x) column name = some k) := by
  refine ⟨start?_eq_some_iff_locates, fun h => ⟨?_, start?_insert_blank h, ?_⟩⟩
  · rw [insertion?, h, Option.map_some]
  · intro c hc x
    exact start?_take_succ_append h hc x

/-- A tag that is reported two characters too far to the right, where the attribute will begin. -/
def shortTag : Text :=
  "<a>".toList

theorem start?_is_sound_and_stable_in_shortTag :
    start? shortTag 3 ['a'] = some 0 ∧ Locates shortTag 3 ['a'] 0 ∧ insertion? shortTag 3 ['a'] = some 2 ∧
      start? "<a <b>>".toList 3 ['a'] = some 0 ∧ start? "<a><<".toList 3 ['a'] = some 0 := by
  obtain ⟨hlocates, hstable⟩ := start?_is_sound_and_stable shortTag 3 ['a'] 0
  have hfound : start? shortTag 3 ['a'] = some 0 := by decide +kernel
  obtain ⟨hinsertion, hinsert, hexchange⟩ := hstable hfound
  exact ⟨hfound, hlocates.1 hfound, hinsertion, hinsert "<b>".toList, hexchange '>' rfl "<<".toList⟩

end TagStamp.Tag
